import Kmsrs.Wire.Calls

/-! The client's half of the conversation: the request PDU it builds and the
acknowledgement it reads. Both are written apart from the server's, layout for
layout; what ties them together is that the server reads the one as it was meant
and the client reads the other as it was decided. -/

namespace Kmsrs.Wire

open Kmsrs.Layout Kmsrs.Bytes Kmsrs.Kms

namespace Client

def firstCallId : UInt32 := 2

/-- Why a client could not build a request. -/
inductive ClientError where
  | bufferTooSmall (needed available : ℕ)
deriving DecidableEq

structure ClientAssociation where
  nextCallId : UInt32
  callIdWarned : Bool
deriving DecidableEq

namespace ClientAssociation

def new : ClientAssociation := ⟨firstCallId, false⟩

/-- The next call ID wraps. -/
def takeCallId (association : ClientAssociation) : UInt32 × ClientAssociation :=
  (association.nextCallId, { association with nextCallId := association.nextCallId + 1 })

end ClientAssociation

/-! ### Requests -/

def requestStubHeaderLen : TransferSyntax → ℕ
  | .ndr64 => 8 + 16
  | _ => 8 + 8

/-- A field that does not fit is left out without a word. -/
def putQuietly (written : List UInt8 × ℕ) (src : List UInt8) : List UInt8 × ℕ :=
  match put written.1 written.2 src with
  | some out => (out, written.2 + src.length)
  | none => written

def writeRequestStubHeader (out : List UInt8) (contextId : UInt16) (transfer : TransferSyntax) (payloadLen : ℕ) :
    List UInt8 :=
  let allocHint := (u32TryFrom payloadLen).getD 0xFFFFFFFF
  let count := UInt64.ofNat payloadLen
  let fields := [u32.encode allocHint, u16.encode contextId, u16.encode 0] ++
    if transfer = .ndr64 then [u64.encode count, u64.encode count] else [u32.encode allocHint, u32.encode allocHint]
  (fields.foldl putQuietly (out, 0)).1

/-- The length of a request PDU. -/
def requestLen (transfer : TransferSyntax) (payload : List UInt8) : ℕ :=
  headerLen + (requestStubHeaderLen transfer + payload.length)

/-- The bytes written, the call ID and the buffer. -/
def ClientAssociation.request (association : ClientAssociation) (out : List UInt8) (contextId : UInt16)
    (transfer : TransferSyntax) (payload : List UInt8) :
    Except ClientError (ℕ × UInt32 × List UInt8) × ClientAssociation :=
  let (callId, association) := association.takeCallId
  let total := requestLen transfer payload
  let tooSmall := ClientError.bufferTooSmall total out.length
  let built :=
    if out.length < total then none
    else
      (u16TryFrom total).bind fun fragLength =>
        let header := RpcHeader.forReply .request .complete callId fragLength
        (put out 0 (RpcHeader.layout.encode header)).bind fun out =>
          (range out headerLen total).bind fun stub =>
            (put (writeRequestStubHeader stub contextId transfer payload.length) (requestStubHeaderLen transfer)
              payload).map fun stub => out.take headerLen ++ stub ++ out.drop total
  (built.elim (.error tooSmall) fun out => .ok (total, callId, out), association)

/-- What stands before the payload in a request PDU. -/
def stubHeader (contextId : UInt16) (transfer : TransferSyntax) (payloadLen : ℕ) : List UInt8 :=
  let count := Stub.lenBytes (Stub.lengthFieldWidth transfer) (UInt64.ofNat payloadLen)
  u32.encode (UInt32.ofNat payloadLen) ++ (u16.encode contextId ++ (u16.encode 0 ++ (count ++ count)))

/-- The body of a request PDU. -/
def requestStub (contextId : UInt16) (transfer : TransferSyntax) (payload : List UInt8) : List UInt8 :=
  stubHeader contextId transfer payload.length ++ payload

theorem requestStubHeaderLen_eq (transfer : TransferSyntax) :
    requestStubHeaderLen transfer = Stub.requestDataOffset transfer := by
  cases transfer <;> rfl

theorem length_stubHeader (contextId : UInt16) (transfer : TransferSyntax) (payloadLen : ℕ) :
    (stubHeader contextId transfer payloadLen).length = Stub.requestDataOffset transfer := by
  simp only [stubHeader, List.length_append, length_encode, size_u32, size_u16, Stub.length_lenBytes,
    Stub.requestDataOffset, Stub.requestPrefixLen]
  omega

/-- Fields that fit are written one behind the other. -/
theorem foldl_putQuietly (fields : List (List UInt8)) (front rest : List UInt8)
    (h : fields.flatten.length ≤ rest.length) :
    fields.foldl putQuietly (front ++ rest, front.length) =
      (front ++ fields.flatten ++ rest.drop fields.flatten.length, front.length + fields.flatten.length) := by
  induction fields generalizing front rest with
  | nil => simp
  | cons field fields ih =>
    have hfield : field.length ≤ rest.length := by
      simp only [List.flatten_cons, List.length_append] at h
      omega
    have hput : putQuietly (front ++ rest, front.length) field =
        ((front ++ field) ++ rest.drop field.length, (front ++ field).length) := by
      rw [putQuietly, put_append front rest field rfl hfield]
      simp
    rw [List.foldl_cons, hput, ih (front ++ field) (rest.drop field.length) (by
      simp only [List.flatten_cons, List.length_append] at h
      rw [List.length_drop]
      omega)]
    simp [Nat.add_assoc]

/-- The stub header fits, so none of its fields is left out. -/
theorem writeRequestStubHeader_eq {stub : List UInt8} (contextId : UInt16) (transfer : TransferSyntax) {payloadLen : ℕ}
    (hlen : Stub.requestDataOffset transfer ≤ stub.length) (hfew : payloadLen < 2 ^ 32) :
    writeRequestStubHeader stub contextId transfer payloadLen =
      stubHeader contextId transfer payloadLen ++ stub.drop (Stub.requestDataOffset transfer) := by
  have hcount : (UInt64.ofNat payloadLen).toNat = payloadLen := UInt64.toNat_ofNat_of_lt' (hfew.trans (by decide))
  have hfields : ([u32.encode (UInt32.ofNat payloadLen), u16.encode contextId, u16.encode 0] ++
      if transfer = .ndr64 then [u64.encode (UInt64.ofNat payloadLen), u64.encode (UInt64.ofNat payloadLen)]
      else [u32.encode (UInt32.ofNat payloadLen), u32.encode (UInt32.ofNat payloadLen)]).flatten =
        stubHeader contextId transfer payloadLen := by
    cases transfer <;> simp [stubHeader, Stub.lenBytes, Stub.lengthFieldWidth, hcount]
  have hwritten := foldl_putQuietly _ [] stub (hfields ▸ (length_stubHeader contextId transfer payloadLen).trans_le hlen)
  rw [hfields, length_stubHeader] at hwritten
  rw [writeRequestStubHeader, u32TryFrom, if_pos hfew]
  exact congrArg Prod.fst hwritten

/-- A request PDU is built whole, or not at all. -/
theorem request_eq (association : ClientAssociation) (out : List UInt8) (contextId : UInt16)
    (transfer : TransferSyntax) (payload : List UInt8) :
    (association.request out contextId transfer payload).1 =
      if requestLen transfer payload ≤ out.length ∧ requestLen transfer payload < 2 ^ 16 then
        .ok (requestLen transfer payload, association.nextCallId,
          RpcHeader.layout.encode
              (.forReply .request .complete association.nextCallId (UInt16.ofNat (requestLen transfer payload))) ++
            requestStub contextId transfer payload ++ out.drop (requestLen transfer payload))
      else .error (.bufferTooSmall (requestLen transfer payload) out.length) := by
  unfold ClientAssociation.request
  simp only [ClientAssociation.takeCallId]
  by_cases hroom : requestLen transfer payload ≤ out.length
  · rw [if_neg hroom.not_gt]
    by_cases hsmall : requestLen transfer payload < 2 ^ 16
    · rw [if_pos ⟨hroom, hsmall⟩, u16TryFrom_eq_some hsmall, Option.bind_some]
      obtain ⟨first, stub, rest, rfl, hfirst, hstub⟩ : ∃ first stub rest : List UInt8, out = first ++ stub ++ rest ∧
          first.length = headerLen ∧ stub.length = Stub.requestDataOffset transfer + payload.length := by
        rw [requestLen, requestStubHeaderLen_eq] at hroom
        refine ⟨out.take headerLen, (out.drop headerLen).take (Stub.requestDataOffset transfer + payload.length),
          (out.drop headerLen).drop (Stub.requestDataOffset transfer + payload.length), by simp, ?_, ?_⟩
        · rw [List.length_take]
          omega
        · rw [List.length_take, List.length_drop]
          omega
      generalize hheader : RpcHeader.forReply .request .complete association.nextCallId
        (UInt16.ofNat (requestLen transfer payload)) = header
      have hencoded : (RpcHeader.layout.encode header).length = headerLen := by simp
      have htotal : requestLen transfer payload = headerLen + stub.length := by
        rw [hstub, requestLen, requestStubHeaderLen_eq]
      have hput : put (first ++ stub ++ rest) 0 (RpcHeader.layout.encode header) =
          some (RpcHeader.layout.encode header ++ stub ++ rest) := by
        have h := put_middle [] first (stub ++ rest) (RpcHeader.layout.encode header) rfl (by omega)
        simpa using h
      rw [hput, Option.bind_some, range_append (RpcHeader.layout.encode header) stub rest hencoded.symm
        (by omega), Option.bind_some, writeRequestStubHeader_eq contextId transfer (by omega) (by
          rw [requestLen] at hsmall
          omega), requestStubHeaderLen_eq]
      have hpayload : put (stubHeader contextId transfer payload.length ++ stub.drop (Stub.requestDataOffset transfer))
          (Stub.requestDataOffset transfer) payload = some (requestStub contextId transfer payload) := by
        have h := put_middle (stubHeader contextId transfer payload.length)
          (stub.drop (Stub.requestDataOffset transfer)) [] payload
          (length_stubHeader contextId transfer payload.length).symm (by rw [List.length_drop]; omega)
        simpa [requestStub] using h
      rw [hpayload]
      have hdrop : ∀ front : List UInt8, front.length = headerLen →
          (front ++ (stub ++ rest)).drop (requestLen transfer payload) = rest := by
        intro front hfront
        rw [htotal, ← hfront, ← List.length_append, ← List.append_assoc, List.drop_left]
      simp only [Option.map_some, Option.elim_some, List.append_assoc, List.take_left' hencoded, hdrop _ hencoded,
        hdrop _ hfirst]
    · rw [if_neg (fun h => hsmall h.2), u16TryFrom, if_neg hsmall]
      rfl
  · rw [if_pos (Nat.lt_of_not_le hroom), if_neg (fun h => hroom h.1)]
    rfl

theorem parseRequest_requestStub (contextId : UInt16) (transfer : TransferSyntax) {payload : List UInt8}
    (h : payload.length < 2 ^ 32) :
    Stub.parseRequest (requestStub contextId transfer payload) transfer =
      .ok ⟨UInt32.ofNat payload.length, contextId, 0, UInt64.ofNat payload.length, UInt64.ofNat payload.length,
        payload⟩ := by
  have hcount : (UInt64.ofNat payload.length).toNat = payload.length :=
    UInt64.toNat_ofNat_of_lt' (h.trans (by decide))
  have hlen := length_stubHeader contextId transfer payload.length
  have hhint : u32.readAt (stubHeader contextId transfer payload.length) 0 = some (UInt32.ofNat payload.length) :=
    u32.readAt_append [] _ _ rfl
  have hcontext : u16.readAt (stubHeader contextId transfer payload.length) 4 = some contextId := by
    rw [stubHeader, ← List.append_assoc]
    exact u16.readAt_append (u32.encode _) contextId _ rfl
  have hopnum : u16.readAt (stubHeader contextId transfer payload.length) 6 = some 0 := by
    rw [stubHeader, ← List.append_assoc, ← List.append_assoc]
    exact u16.readAt_append (u32.encode _ ++ u16.encode contextId) 0 _ rfl
  have hlength : Stub.readLen (stubHeader contextId transfer payload.length) Stub.requestPrefixLen
      (Stub.lengthFieldWidth transfer) = some (UInt64.ofNat payload.length) := by
    rw [stubHeader]
    simp only [← List.append_assoc]
    exact Stub.readLen_append _ _ _ _ (by simp [Stub.requestPrefixLen]) (by omega)
  have hsizeIs : Stub.readLen (stubHeader contextId transfer payload.length)
      (Stub.requestPrefixLen + Stub.lengthFieldWidth transfer) (Stub.lengthFieldWidth transfer) =
        some (UInt64.ofNat payload.length) := by
    obtain ⟨front, hfront⟩ : ∃ front, front = u32.encode (UInt32.ofNat payload.length) ++ u16.encode contextId ++
        u16.encode 0 ++ Stub.lenBytes (Stub.lengthFieldWidth transfer) (UInt64.ofNat payload.length) := ⟨_, rfl⟩
    have hoffset : Stub.requestPrefixLen + Stub.lengthFieldWidth transfer = front.length := by
      simp only [hfront, List.length_append, length_encode, size_u32, size_u16, Stub.length_lenBytes,
        Stub.requestPrefixLen]
    have hread := Stub.readLen_append (Stub.lengthFieldWidth transfer) front (UInt64.ofNat payload.length) [] hoffset
      (by omega)
    simpa [stubHeader, hfront] using hread
  rw [requestStub, Stub.parseRequest]
  simp only [← hlen, List.length_append, List.take_left, List.drop_left, hhint, hcontext, hopnum, hlength, hsizeIs,
    Option.getD_some]
  rw [if_neg (by omega), if_neg (by simp [Stub.kmsOpnum]), if_neg (by simp [hcount])]

/-- The PDU that was built, as the fragment the server will make of it. -/
def requestFragment (callId : UInt32) (contextId : UInt16) (transfer : TransferSyntax) (payload : List UInt8) : Fragment :=
  Machine.fragmentOf .complete callId (requestStub contextId transfer payload)

theorem length_requestStub (contextId : UInt16) (transfer : TransferSyntax) (payload : List UInt8) :
    (requestStub contextId transfer payload).length = Stub.requestDataOffset transfer + payload.length := by
  rw [requestStub, List.length_append, length_stubHeader]

theorem bytes_of_request {association : ClientAssociation} {out out' : List UInt8} {contextId : UInt16}
    {transfer : TransferSyntax} {payload : List UInt8} {len : ℕ} {callId : UInt32}
    (h : (association.request out contextId transfer payload).1 = .ok (len, callId, out')) :
    len = headerLen + (requestStub contextId transfer payload).length ∧ len < 2 ^ 16 ∧
      out'.take len = (requestFragment callId contextId transfer payload).bytes := by
  have hlen : requestLen transfer payload = headerLen + (requestStub contextId transfer payload).length := by
    rw [requestLen, requestStubHeaderLen_eq, length_requestStub]
  rw [request_eq] at h
  split_ifs at h with hfits
  cases h
  refine ⟨hlen, hfits.2, ?_⟩
  rw [hlen, List.take_left' (by simp)]
  rfl

end Client

namespace Connection

/-- The payload that a step hands to `decode`, if it hands one over. -/
def payload? (connection : Connection) : Option (List UInt8) :=
  connection.handed?.bind fun handed => (Stub.parseRequest handed.stub handed.transfer).toOption.map fun stub => stub.data

/-- Such a step is the answer to the payload. -/
theorem step_of_payload {ε σ : Type} (env : Env ε σ) (entropy : ε) (host : σ) (out : List UInt8) {connection : Connection}
    {payload : List UInt8} (h : connection.payload? = some payload) (now : Instant) :
    ∃ handed inbound, connection.handed? = some handed ∧ connection.step env now entropy host out =
      { connection.touched now with inbound }.stopReassembly.answer env handed.callId handed.contextId
        handed.transfer payload entropy host out := by
  obtain ⟨handed, hhanded, hparsed⟩ := Option.bind_eq_some_iff.mp h
  obtain ⟨stub, hstub, hdata⟩ := Option.map_eq_some_iff.mp hparsed
  obtain ⟨inbound, hstep⟩ := step_of_handed env entropy host out hhanded now
  refine ⟨handed, inbound, hhanded, ?_⟩
  rw [hstep, handleStub, eq_ok_of_toOption hstub, ← hdata]

end Connection

namespace Client

open Kmsrs.Wire.Connection

variable {connection : Connection} {callId : UInt32} {contextId : UInt16} {transfer : TransferSyntax}
  {payload rest : List UInt8}

/-- The context a request asks for is in its body, whatever the syntax. -/
theorem fragmentContext_request :
    connection.fragmentContext (requestFragment callId contextId transfer payload).header
      (requestFragment callId contextId transfer payload).body = some contextId := by
  have hfirst : (requestFragment callId contextId transfer payload).header.flags.contains .firstFrag = true := by
    show PacketFlags.contains .complete .firstFrag = true
    decide
  have hread : u16.readAt (requestStub contextId transfer payload) 4 = some contextId := by
    rw [requestStub, stubHeader, List.append_assoc, ← List.append_assoc, List.append_assoc]
    exact u16.readAt_append (u32.encode _) contextId _ rfl
  unfold fragmentContext
  rw [if_pos hfirst]
  exact congrArg some (by rw [show (requestFragment callId contextId transfer payload).body =
    requestStub contextId transfer payload from rfl, hread]; rfl)

/-- A request is served on the first context held under its ID. -/
theorem served?_request :
    connection.served? (requestFragment callId contextId transfer payload) =
      connection.phase.contexts.find? fun held => held.contextId = contextId := by
  unfold served?
  cases connection.phase with
  | unbound _ | transitioning => rfl
  | bound association =>
    simp only [fragmentContext_request, Option.bind_some, Association.service, Association.syntaxFor, Phase.contexts]
    cases hfind : association.state.contexts.items.find? fun held => held.contextId = contextId with
    | none => rfl
    | some held =>
      have hid : held.contextId = contextId := by simpa using List.find?_some hfind
      subst hid
      rfl

theorem payload?_request (hfits : headerLen + (requestStub contextId transfer payload).length ≤ maxPduLen)
    (hinbound : connection.inbound.items = (requestFragment callId contextId transfer payload).bytes ++ rest) :
    connection.payload? = (connection.phase.contexts.find? fun held => held.contextId = contextId).bind fun context =>
      (Stub.parseRequest (requestStub contextId transfer payload) context.transfer).toOption.map fun stub =>
        stub.data := by
  have hframed : (requestFragment callId contextId transfer payload).Framed := Machine.framed_fragmentOf _ _ hfits
  have hfragment : connection.fragment? = some (requestFragment callId contextId transfer payload) := by
    unfold fragment?
    rw [hinbound, Frame.next_append hframed.next rest]
    exact if_pos hframed.requests
  have hassembled : connection.assembledWith (requestFragment callId contextId transfer payload) =
      requestStub contextId transfer payload := by
    have hfirst : PacketFlags.contains .complete .firstFrag = true := by decide
    show (if PacketFlags.contains .complete .firstFrag = true then [] else connection.reassembly.items) ++
      requestStub contextId transfer payload = _
    rw [if_pos hfirst, List.nil_append]
  have hends : (requestStub contextId transfer payload).length ≤ maxStubLen ∧
      (requestFragment callId contextId transfer payload).isLast = true := by
    refine ⟨by simp only [maxStubLen]; omega, ?_⟩
    show PacketFlags.contains .complete .lastFrag = true
    decide
  unfold payload? handed?
  rw [hfragment, Option.bind_some, served?_request, hassembled, Option.bind_assoc]
  refine congrArg _ (funext fun context => ?_)
  rw [if_pos hends]
  rfl

/-- Read in the other syntax, the two layouts are of different lengths. -/
theorem data_ne_of_other {other : TransferSyntax} {stub : Stub.RequestStub}
    (hwidth : Stub.lengthFieldWidth other ≠ Stub.lengthFieldWidth transfer)
    (h : Stub.parseRequest (requestStub contextId transfer payload) other = .ok stub) : stub.data ≠ payload := by
  have hlen := length_requestStub contextId transfer payload
  simp only [Stub.parseRequest] at h
  split_ifs at h with hshort hopnum hlengths
  cases h
  intro hdata
  have hdrop := congrArg List.length hdata
  rw [List.length_drop, hlen] at hdrop
  rw [hlen] at hshort
  simp only [Stub.requestDataOffset] at hdrop hshort
  omega

end Client

namespace Machine

open Kmsrs.Wire.Client Kmsrs.Wire.Connection

variable {ε σ : Type} {machine : Machine ε σ} {past : List (Machine ε σ × Call ε σ)} {assocGroup : UInt32}
  {ndr64Enabled : Bool} {entropy : ε} {host : σ}

/-- What the client builds is one PDU of the length it returns, and the server's
parser reads its payload back. A connection that holds the context in that syntax
decodes that very payload exactly when no other context is found first under the
same ID. -/
theorem request_framing_agrees (hrun : Runs next (start assocGroup ndr64Enabled entropy host) past machine)
    {association : ClientAssociation} {out out' : List UInt8} {contextId : UInt16} {transfer : TransferSyntax}
    {payload : List UInt8} {len : ℕ} {callId : UInt32}
    (h : (association.request out contextId transfer payload).1 = .ok (len, callId, out')) :
    (∃ header body stub, RpcHeader.layout.readFromPrefix (out'.take len) = some (header, body) ∧
        (out'.take len).length = len ∧ header.fragLength.toNat = len ∧ header.packetType? = some .request ∧
        Stub.parseRequest body transfer = .ok stub ∧ stub.contextId = contextId ∧ stub.opnum = 0 ∧
        stub.data = payload) ∧
      (payload.length ≤ 260 → ⟨contextId, transfer⟩ ∈ machine.connection.phase.contexts →
        (∃ rest, machine.connection.inbound.items = out'.take len ++ rest) →
        (machine.connection.payload? = some payload ↔
          (machine.connection.phase.contexts.find? fun held => held.contextId = contextId) =
            some ⟨contextId, transfer⟩)) := by
  obtain ⟨hlen, hsmall, hbytes⟩ := bytes_of_request h
  have hpayload : payload.length < 2 ^ 32 := by
    rw [hlen, length_requestStub] at hsmall
    omega
  have hparse := parseRequest_requestStub contextId transfer hpayload
  constructor
  · refine ⟨(requestFragment callId contextId transfer payload).header, requestStub contextId transfer payload, _, ?_,
      ?_, ?_, PacketType.request.fromWire_toWire, hparse, rfl, rfl, rfl⟩
    · rw [hbytes]
      exact readFromPrefix_append RpcHeader.layout _ _
    · rw [hbytes, Fragment.length_bytes]
      exact hlen.symm
    · show (UInt16.ofNat (headerLen + (requestStub contextId transfer payload).length)).toNat = len
      rw [← hlen]
      exact UInt16.toNat_ofNat_of_lt' hsmall
  · rintro hshort hheld ⟨rest, hinbound⟩
    have hfits : headerLen + (requestStub contextId transfer payload).length ≤ maxPduLen := by
      have hwidth := Stub.lengthFieldWidth_eq transfer
      rw [length_requestStub]
      simp only [headerLen, Stub.requestDataOffset, Stub.requestPrefixLen, maxPduLen]
      omega
    rw [payload?_request hfits (hbytes ▸ hinbound)]
    constructor
    · intro hread
      obtain ⟨held, hfind, hparsed⟩ := Option.bind_eq_some_iff.mp hread
      obtain ⟨stub, hstub, hdata⟩ := Option.map_eq_some_iff.mp hparsed
      have hid : held.contextId = contextId := by simpa using List.find?_some hfind
      have hparsed := eq_ok_of_toOption hstub
      have hsame : Stub.lengthFieldWidth held.transfer = Stub.lengthFieldWidth transfer := by
        by_contra hwidth
        exact data_ne_of_other hwidth hparsed hdata
      have htransfer : held.transfer = transfer := by
        -- both are served syntaxes, and those differ in width
        have hsound := sound_run hrun
        have hfirst := hsound.transfers held (List.mem_of_find?_eq_some hfind)
        have hsecond := hsound.transfers _ hheld
        rcases hfirst with hfirst | ⟨hfirst, -⟩ <;> rcases hsecond with hsecond | ⟨hsecond, -⟩ <;>
          simp_all [Stub.lengthFieldWidth]
      rw [hfind, ← hid, ← htransfer]
    · intro hfind
      rw [hfind, Option.bind_some, hparse]
      rfl

/-- A call of three bytes on context 0, into a buffer with room for it. -/
def calledThree (transfer : TransferSyntax) : Except Client.ClientError (ℕ × UInt32 × List UInt8) :=
  (ClientAssociation.new.request (List.replicate 64 0xFF) 0 transfer [7, 8, 9]).1

def calledThreeBytes (transfer : TransferSyntax) : List UInt8 :=
  match calledThree transfer with
  | .ok (len, _, out) => out.take len
  | .error _ => []

theorem three_bytes_read_back :
    (boundOnce.next (.receive (calledThreeBytes .ndr32))).connection.payload? = some [7, 8, 9] := by
  have hrequest : calledThree .ndr32 = .ok (35, 2, calledThreeBytes .ndr32 ++ List.replicate 29 0xFF) := by
    decide +kernel
  have hrun : Runs next (start 0 false () ()) _ (boundOnce.next (.receive (calledThreeBytes .ndr32))) :=
    (Runs.of_path _).snoc _
  exact ((request_framing_agrees hrun hrequest).2 (by decide) (by decide +kernel)
    ⟨[], by decide +kernel⟩).mpr (by decide +kernel)

/-- Context 0 is held in both syntaxes, and read in the one accepted first. -/
theorem reused_id_payload_not_read :
    ¬∀ (assocGroup : UInt32) (ndr64Enabled : Bool) (past : List (Machine Unit Unit × Call Unit Unit))
        (machine : Machine Unit Unit), Runs next (start assocGroup ndr64Enabled () ()) past machine →
      ∀ (association : ClientAssociation) (out out' : List UInt8) (contextId : UInt16) (transfer : TransferSyntax)
        (payload : List UInt8) (len : ℕ) (callId : UInt32),
        (association.request out contextId transfer payload).1 = .ok (len, callId, out') →
        payload.length ≤ 260 → ⟨contextId, transfer⟩ ∈ machine.connection.phase.contexts →
        machine.connection.inbound.items = out'.take len → machine.connection.payload? = some payload := by
  intro h
  have hrequest : calledThree .ndr64 = .ok (43, 2, calledThreeBytes .ndr64 ++ List.replicate 21 0xFF) := by
    decide +kernel
  have hread := h 0 true _ _ (Runs.of_path (boundThenAltered 0 ++
      [.step denying 0 (List.replicate 384 0), .receive (calledThreeBytes .ndr64)]))
    .new _ _ 0 .ndr64 [7, 8, 9] _ _ hrequest (by decide) (by decide +kernel) (by decide +kernel)
  exact absurd hread (by decide +kernel)

end Machine

end Kmsrs.Wire
