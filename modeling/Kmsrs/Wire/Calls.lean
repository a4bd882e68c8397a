import Kmsrs.Wire.Reassembly

/-! Which fragments a stub is made of. Over a run the fragments in the reassembly
buffer are told from the past; the stub handed to the parser is what they carry,
from the fragment marked first to the one marked last. That they belong to the
call that is answered is up to the client: its continuations must carry the call
ID of the call in progress. -/

namespace Kmsrs.Wire

open Kmsrs.Layout Kmsrs.Bytes Kmsrs.Kms Kmsrs.Wire.Bind Kmsrs.Wire.Connection

instance (header : RpcHeader) : Decidable (Requests header) :=
  inferInstanceAs (Decidable (_ ∧ _ ∧ _))

theorem eq_ok_of_toOption {α β : Type} {result : Except α β} {value : β} (h : result.toOption = some value) :
    result = .ok value := by
  cases result with
  | error error => cases h
  | ok found =>
    cases h
    rfl

/-- A stub as it is handed to the parser, and the call that will be answered. -/
structure Handed where
  callId : UInt32
  contextId : UInt16
  transfer : TransferSyntax
  stub : List UInt8

namespace Connection

variable (connection : Connection)

/-- The request at the front of the buffer. -/
def fragment? : Option Fragment :=
  match Frame.next connection.inbound.items with
  | some (.pdu header body, _) => if Requests header then some ⟨header, body⟩ else none
  | _ => none

/-- The context a fragment is served on. -/
def served? (fragment : Fragment) : Option AcceptedContext :=
  match connection.phase with
  | .bound association =>
    (connection.fragmentContext fragment.header fragment.body).bind fun contextId =>
      (association.service contextId).toOption.map fun transfer => ⟨contextId, transfer⟩
  | .unbound _ | .transitioning => none

/-- What a fragment adds up to with those put together before it. -/
def assembledWith (fragment : Fragment) : List UInt8 := connection.assembled fragment.header fragment.body

/-- The stub that a step hands to the parser, if it does. -/
def handed? : Option Handed :=
  connection.fragment?.bind fun fragment =>
    (connection.served? fragment).bind fun context =>
      if (connection.assembledWith fragment).length ≤ maxStubLen ∧ fragment.isLast = true then
        some ⟨fragment.callId, context.contextId, context.transfer, connection.assembledWith fragment⟩
      else none

/-- The fragments put together after this one, from those before it. One that is
not served changes nothing; one that overflows or completes the call leaves
nothing. -/
def gather (gathered : List Fragment) (fragment : Fragment) : List Fragment :=
  if (connection.served? fragment).isNone then gathered
  else if maxStubLen < (connection.assembledWith fragment).length ∨ fragment.isLast = true then []
  else (if fragment.isFirst then [] else gathered) ++ [fragment]

variable {connection}

theorem served?_eq_some {fragment : Fragment} {contextId : UInt16} {transfer : TransferSyntax} :
    connection.served? fragment = some ⟨contextId, transfer⟩ ↔
      connection.Serves fragment.header fragment.body contextId transfer := by
  unfold served? Serves
  cases hphase : connection.phase with
  | unbound _ | transitioning => simp
  | bound association =>
    simp only [Option.bind_eq_some_iff, Option.map_eq_some_iff, Phase.bound.injEq, exists_eq_left',
      AcceptedContext.mk.injEq]
    constructor
    · rintro ⟨contextId, hcontext, transfer, htransfer, rfl, rfl⟩
      exact ⟨hcontext, eq_ok_of_toOption htransfer⟩
    · rintro ⟨hcontext, hservice⟩
      exact ⟨contextId, hcontext, transfer, by simp [hservice, Except.toOption], rfl, rfl⟩

theorem served?_eq_none {fragment : Fragment}
    (h : ∀ contextId transfer, ¬ connection.Serves fragment.header fragment.body contextId transfer) :
    connection.served? fragment = none := by
  rw [Option.eq_none_iff_forall_not_mem]
  intro context hcontext
  exact h _ _ (served?_eq_some.mp hcontext)

/-! ### What the buffer holds -/

variable (connection) in
/-- The reassembly buffer holds what these fragments carry: one marked first and
continuations of it, none of them the last. -/
structure Gathered (gathered : List Fragment) : Prop where
  items : connection.reassembly.items = Fragment.stub gathered
  started : connection.reassemblingContext ≠ none → gathered ≠ []
  first : ∀ first rest, gathered = first :: rest → first.isFirst = true ∧ ∀ later ∈ rest, later.isFirst = false
  unfinished : ∀ fragment ∈ gathered, fragment.isLast = false

variable {connection' : Connection} {gathered : List Fragment}

theorem Gathered.of_eq (h : connection.Gathered gathered) (hitems : connection'.reassembly = connection.reassembly)
    (hcontext : connection'.reassemblingContext = connection.reassemblingContext) :
    connection'.Gathered gathered where
  items := hitems ▸ h.items
  started := hcontext ▸ h.started
  first := h.first
  unfinished := h.unfinished

theorem gathered_nil (hitems : connection.reassembly = .empty) (hcontext : connection.reassemblingContext = none) :
    connection.Gathered [] where
  items := by rw [hitems]; rfl
  started := fun hsome => absurd hcontext hsome
  first := by simp
  unfinished := by simp

/-- The fragments in the buffer, with one more that is served. -/
theorem Gathered.items_join (h : connection.Gathered gathered) (fragment : Fragment) :
    connection.assembledWith fragment =
      Fragment.stub ((if fragment.isFirst then [] else gathered) ++ [fragment]) := by
  unfold assembledWith assembled Fragment.isFirst
  rw [h.items]
  split_ifs <;> simp

/-- A fragment that is served opens a call, or there is one that it continues. -/
theorem Gathered.first_join (h : connection.Gathered gathered) {fragment : Fragment} {contextId : UInt16}
    {transfer : TransferSyntax} (hserves : connection.Serves fragment.header fragment.body contextId transfer) :
    ∃ first rest, (if fragment.isFirst then [] else gathered) ++ [fragment] = first :: rest ∧
      first.isFirst = true ∧ ∀ later ∈ rest, later.isFirst = false := by
  cases hfirst : fragment.isFirst with
  | true => exact ⟨fragment, [], by simp, hfirst, by simp⟩
  | false =>
    obtain ⟨-, -, hcontext, -⟩ := hserves
    have hnone : ¬ fragment.header.flags.contains .firstFrag = true := by
      simpa [Fragment.isFirst] using hfirst
    rw [fragmentContext, if_neg hnone] at hcontext
    obtain ⟨first, rest, rfl⟩ := List.exists_cons_of_ne_nil (h.started (by simp [hcontext]))
    obtain ⟨hopens, hlater⟩ := h.first first rest rfl
    refine ⟨first, rest ++ [fragment], by simp, hopens, ?_⟩
    intro later hmem
    rcases List.mem_append.mp hmem with hmem | hmem
    · exact hlater later hmem
    · rwa [List.mem_singleton.mp hmem]

section
variable {ε σ : Type} (env : Env ε σ) (entropy : ε) (host : σ) (out : List UInt8)

theorem gathered_handleRequest (h : connection.Gathered gathered) (fragment : Fragment) :
    (connection.handleRequest env fragment.header fragment.body entropy host out).connection.Gathered
      (connection.gather gathered fragment) := by
  unfold gather
  rcases handleRequest_cases connection out env entropy host fragment.header fragment.body with
    ⟨contextId, status, hnot, heq⟩ |
    ⟨contextId, transfer, hserves, ⟨hlong, heq⟩ | ⟨reassembly, hitems, hopen, heq⟩ | ⟨-, hlast, heq⟩⟩
  · have hlogged := logged_fault connection out fragment.header.callId contextId status
    rw [heq, if_pos (by simp [served?_eq_none hnot])]
    exact h.of_eq hlogged.reassembly hlogged.reassemblingContext
  · have hlogged := (logged_record connection.stopReassembly (.rejected .reassemblyOverflow)).trans
      (logged_fault _ out fragment.header.callId contextId .protocolError)
    rw [heq, if_neg (by simp [served?_eq_some.mpr hserves]), if_pos (.inl hlong)]
    exact gathered_nil hlogged.reassembly hlogged.reassemblingContext
  · have hshort : ¬ (maxStubLen < (connection.assembledWith fragment).length ∨ fragment.isLast = true) := by
      rintro (hlong | hlast)
      · have hcap := reassembly.le_cap
        rw [hitems] at hcap
        exact absurd hcap (Nat.not_le.mpr hlong)
      · rw [Fragment.isLast, hopen] at hlast
        cases hlast
    obtain ⟨first, rest, hjoin, hfirst⟩ := h.first_join hserves
    rw [heq, if_neg (by simp [served?_eq_some.mpr hserves]), if_neg hshort]
    refine ⟨hitems.trans (h.items_join fragment), by simp, ?_, ?_⟩
    · intro first' rest' hjoin'
      rw [hjoin] at hjoin'
      cases hjoin'
      exact hfirst
    · intro earlier hmem
      rcases List.mem_append.mp hmem with hmem | hmem
      · split_ifs at hmem
        · cases hmem
        · exact h.unfinished earlier hmem
      · rw [List.mem_singleton.mp hmem]
        exact hopen
  · have hlogged := logged_handleStub connection.stopReassembly out fragment.header.callId contextId env entropy
      host transfer (connection.assembled fragment.header fragment.body)
    rw [heq, if_neg (by simp [served?_eq_some.mpr hserves]), if_pos (.inr hlast)]
    exact gathered_nil hlogged.reassembly hlogged.reassemblingContext

variable (connection) in
/-- The fragments put together after a step. -/
def gatherNext (gathered : List Fragment) : List Fragment :=
  match connection.fragment? with
  | none => gathered
  | some fragment => connection.gather gathered fragment

theorem gathered_step (hsound : Sound connection) (h : connection.Gathered gathered) (now : Instant) :
    (connection.step env now entropy host out).connection.Gathered (connection.gatherNext gathered) := by
  unfold gatherNext fragment?
  cases hframe : Frame.next connection.inbound.items with
  | none =>
    rw [step_of_none env now entropy host out hframe]
    exact h.of_eq rfl rfl
  | some found =>
    obtain ⟨frame, rest⟩ := found
    cases frame with
    | malformed reason =>
      rw [step_of_malformed env now entropy host out hframe]
      exact h.of_eq rfl rfl
    | pdu header body =>
      rw [step_of_pdu env now entropy host out hframe]
      dsimp only
      rcases dispatch_cases env entropy host out header body (hsound.consumed now header).settled with
        ⟨-, hnot, reply, inbound, -, hlogged, heq⟩ | ⟨request, connection', assocGroup, hsome, hlogged, heq⟩ |
        ⟨hrequests, heq⟩
      · rw [heq, if_neg hnot]
        exact h.of_eq hlogged.reassembly hlogged.reassemblingContext
      · have hnot : ¬ Requests header := by
          intro hrequests
          rw [hrequests.proposal? body] at hsome
          cases hsome
        rw [heq, if_neg hnot, connection_acknowledged]
        exact h.of_eq hlogged.reassembly hlogged.reassemblingContext
      · rw [heq, if_pos hrequests]
        have hconsumed : (connection.consumed now header).Gathered gathered := h.of_eq rfl rfl
        exact gathered_handleRequest env entropy host out hconsumed ⟨header, body⟩

/-! ### What the parser is handed -/

theorem handed?_eq_some {handed : Handed} (h : connection.handed? = some handed) :
    ∃ fragment, connection.fragment? = some fragment ∧ handed.callId = fragment.callId ∧
      handed.stub = connection.assembledWith fragment ∧ handed.stub.length ≤ maxStubLen ∧ fragment.isLast = true ∧
      connection.Serves fragment.header fragment.body handed.contextId handed.transfer := by
  obtain ⟨fragment, hfragment, h⟩ := Option.bind_eq_some_iff.mp h
  obtain ⟨context, hcontext, h⟩ := Option.bind_eq_some_iff.mp h
  split at h
  next hends =>
    cases h
    exact ⟨fragment, hfragment, rfl, rfl, hends.1, hends.2, served?_eq_some.mp hcontext⟩
  next => cases h

theorem fragment?_eq_some {fragment : Fragment} (h : connection.fragment? = some fragment) :
    Requests fragment.header ∧
      ∃ rest, Frame.next connection.inbound.items = some (.pdu fragment.header fragment.body, rest) := by
  unfold fragment? at h
  split at h
  next header body rest hframe =>
    split at h
    next hrequests =>
      cases h
      exact ⟨hrequests, rest, hframe⟩
    next => cases h
  next => cases h

/-- A step that hands over a stub is the answer to it. -/
theorem step_of_handed {handed : Handed} (h : connection.handed? = some handed) (now : Instant) :
    ∃ inbound, connection.step env now entropy host out =
      { connection.touched now with inbound }.stopReassembly.handleStub env handed.callId handed.contextId
        handed.transfer handed.stub entropy host out := by
  obtain ⟨fragment, hfragment, hcall, hstub, hfits, hlast, hserves⟩ := handed?_eq_some h
  obtain ⟨hrequests, rest, hframe⟩ := fragment?_eq_some hfragment
  have hconsumed : (connection.consumed now fragment.header).Serves fragment.header fragment.body
      handed.contextId handed.transfer := hserves
  have hassembled : (connection.consumed now fragment.header).assembled fragment.header fragment.body =
      handed.stub := hstub.symm
  refine ⟨connection.inbound.drop fragment.header.fragLength.toNat, ?_⟩
  rw [step_of_pdu env now entropy host out hframe, dispatch_of_requests env entropy host out hrequests,
    handleRequest_completes env entropy host out hconsumed (by rwa [hassembled]) hlast, hassembled, hcall]
  rfl

/-- The host is asked about what the payload decodes to. -/
theorem asked_answer {callId : UInt32} {contextId : UInt16} {transfer : TransferSyntax} {payload : List UInt8}
    {request : Request}
    (h : (connection.answer env callId contextId transfer payload entropy host out).asked = some request) :
    ∃ decoded, Kms.decode payload connection.ciphers = .ok decoded ∧ decoded.request = request := by
  unfold answer at h
  split at h
  · cases h
  · cases h
  · cases h
  next decoded hdecode =>
    refine ⟨decoded, hdecode, ?_⟩
    split at h
    · exact Option.some.inj h
    · simp only at h
      split at h
      · exact Option.some.inj h
      · split at h <;> exact Option.some.inj h

theorem asked_handleStub {callId : UInt32} {contextId : UInt16} {transfer : TransferSyntax} {assembled : List UInt8}
    {request : Request}
    (h : (connection.handleStub env callId contextId transfer assembled entropy host out).asked = some request) :
    ∃ parsed decoded, Stub.parseRequest assembled transfer = .ok parsed ∧
      Kms.decode parsed.data connection.ciphers = .ok decoded ∧ decoded.request = request := by
  unfold handleStub at h
  split at h
  · cases h
  · cases h
  next parsed hparse =>
    obtain ⟨decoded, hdecode, hrequest⟩ := asked_answer env entropy host out h
    exact ⟨parsed, decoded, hparse, hdecode, hrequest⟩

/-- Only a stub that was handed over leads to a question. -/
theorem handed_of_asked (hsound : Sound connection) (now : Instant) {request : Request}
    (h : (connection.step env now entropy host out).asked = some request) :
    ∃ handed parsed decoded, connection.handed? = some handed ∧
      Stub.parseRequest handed.stub handed.transfer = .ok parsed ∧
      Kms.decode parsed.data connection.ciphers = .ok decoded ∧ decoded.request = request := by
  obtain ⟨header, body, rest, contextId, transfer, hframe, hrequests, hlast, hserves⟩ :=
    asked_step env entropy host out hsound now h
  have hfragment : connection.fragment? = some ⟨header, body⟩ := by
    unfold fragment?
    rw [hframe]
    exact if_pos hrequests
  by_cases hfits : (connection.assembled header body).length ≤ maxStubLen
  · have hhanded : connection.handed? =
        some ⟨header.callId, contextId, transfer, connection.assembled header body⟩ := by
      have hserved : connection.served? ⟨header, body⟩ = some ⟨contextId, transfer⟩ := served?_eq_some.mpr hserves
      unfold handed?
      rw [hfragment, Option.bind_some, hserved, Option.bind_some]
      exact if_pos ⟨hfits, hlast⟩
    obtain ⟨inbound, hstep⟩ := step_of_handed env entropy host out hhanded now
    rw [hstep] at h
    obtain ⟨parsed, decoded, hparse, hdecode, hrequest⟩ := asked_handleStub env entropy host out h
    exact ⟨_, parsed, decoded, hhanded, hparse, hdecode, hrequest⟩
  · have hconsumed : (connection.consumed now header).Serves header body contextId transfer := hserves
    rw [step_of_pdu env now entropy host out hframe, dispatch_of_requests env entropy host out hrequests,
      handleRequest_overflows env entropy host out hconsumed (Nat.lt_of_not_le hfits)] at h
    cases h

end

end Connection

/-! ### Runs -/

/-- A whole call: its first fragment is the only one marked so, and so is its
last. -/
structure Fragment.Whole (fragments : List Fragment) : Prop where
  first : ∃ first rest, fragments = first :: rest ∧ first.isFirst = true ∧ ∀ later ∈ rest, later.isFirst = false
  last : ∃ earlier last, fragments = earlier ++ [last] ∧ last.isLast = true ∧
    ∀ fragment ∈ earlier, fragment.isLast = false

namespace Machine

variable {ε σ : Type} {machine : Machine ε σ} {past : List (Machine ε σ × Call ε σ)} {assocGroup : UInt32}
  {ndr64Enabled : Bool} {entropy : ε} {host : σ}

/-- The request that a call takes off the buffer. -/
def fragment? (machine : Machine ε σ) : Call ε σ → Option Fragment
  | .step _ _ _ => machine.connection.fragment?
  | .receive _ | .nextEvent => none

/-- The requests of a run, of whatever calls. -/
def requests (past : List (Machine ε σ × Call ε σ)) : List Fragment :=
  past.filterMap fun transition => transition.1.fragment? transition.2

def gatherNext (gathered : List Fragment) (transition : Machine ε σ × Call ε σ) : List Fragment :=
  match transition.1.fragment? transition.2 with
  | none => gathered
  | some fragment => transition.1.connection.gather gathered fragment

/-- The fragments being put together after a run. -/
def gathered (past : List (Machine ε σ × Call ε σ)) : List Fragment := past.foldl gatherNext []

theorem gathered_concat (past : List (Machine ε σ × Call ε σ)) (transition : Machine ε σ × Call ε σ) :
    gathered (past ++ [transition]) = gatherNext (gathered past) transition := by
  rw [gathered, List.foldl_append]
  rfl

theorem reassembly_receive (connection : Connection) (bytes : List UInt8) :
    ((connection.receive bytes).getD connection).reassembly = connection.reassembly ∧
      ((connection.receive bytes).getD connection).reassemblingContext = connection.reassemblingContext := by
  unfold receive
  cases connection.inbound.tryExtendFromSlice bytes <;> exact ⟨rfl, rfl⟩

theorem gathered_run (h : Runs next (start assocGroup ndr64Enabled entropy host) past machine) :
    machine.connection.Gathered (gathered past) := by
  refine h.history (fun past machine => machine.connection.Gathered (gathered past)) (gathered_nil rfl rfl) ?_
  intro past machine call hrun ih
  rw [gathered_concat]
  cases call with
  | receive bytes =>
    have hkept := reassembly_receive machine.connection bytes
    exact ih.of_eq hkept.1 hkept.2
  | step env now out => exact gathered_step env machine.entropy machine.host out (sound_run hrun) ih now
  | nextEvent =>
    have hlogged := logged_nextEvent machine.connection
    exact ih.of_eq hlogged.reassembly hlogged.reassemblingContext

theorem gatherNext_sublist {gathered requests : List Fragment} (h : gathered.Sublist requests)
    (transition : Machine ε σ × Call ε σ) :
    (gatherNext gathered transition).Sublist (requests ++ (transition.1.fragment? transition.2).toList) := by
  unfold gatherNext
  cases transition.1.fragment? transition.2 with
  | none => simpa using h
  | some fragment =>
    simp only [Option.toList_some]
    unfold gather
    split_ifs
    · exact h.trans (List.sublist_append_left requests _)
    · exact List.nil_sublist _
    · exact (List.nil_sublist requests).append (List.Sublist.refl _)
    · exact h.append (List.Sublist.refl _)

theorem requests_concat (past : List (Machine ε σ × Call ε σ)) (transition : Machine ε σ × Call ε σ) :
    requests (past ++ [transition]) = requests past ++ (transition.1.fragment? transition.2).toList := by
  unfold requests
  rw [List.filterMap_append]
  cases h : transition.1.fragment? transition.2 <;> simp [h]

/-- The fragments in the buffer came in this order, with others between them. -/
theorem gathered_sublist (past : List (Machine ε σ × Call ε σ)) : (gathered past).Sublist (requests past) := by
  induction past using List.reverseRecOn with
  | nil => exact List.Sublist.refl _
  | append_singleton past transition ih =>
    rw [gathered_concat, requests_concat]
    exact gatherNext_sublist ih transition

/-- The fragment that a call adds to the ones before it. -/
def continuation? (machine : Machine ε σ) (call : Call ε σ) : Option Fragment :=
  (machine.fragment? call).filter fun fragment =>
    (machine.connection.served? fragment).isSome && !fragment.isFirst &&
      decide ((machine.connection.assembledWith fragment).length ≤ maxStubLen)

/-- Every continuation carries the call ID of the call in progress. -/
def OwnContinuations (past : List (Machine ε σ × Call ε σ)) : Prop :=
  ∀ before machine call after, past = before ++ (machine, call) :: after →
    ∀ fragment, machine.continuation? call = some fragment →
      ∀ first, (gathered before).head? = some first → fragment.callId = first.callId

theorem OwnContinuations.of_append {before after : List (Machine ε σ × Call ε σ)}
    (h : OwnContinuations (before ++ after)) : OwnContinuations before := by
  rintro earlier machine call later rfl
  exact h earlier machine call (later ++ after) (by simp)

/-- The fragment at the end of a run that continues a call, or opens one, is of
the same call as those before it. -/
theorem join_callId {fragment : Fragment} {call : Call ε σ}
    (hown : OwnContinuations (past ++ [(machine, call)]))
    (hcalls : ∀ earlier ∈ gathered past, ∀ first, (gathered past).head? = some first →
      earlier.callId = first.callId)
    (hfragment : machine.fragment? call = some fragment) (hserved : (machine.connection.served? fragment).isSome)
    (hfits : (machine.connection.assembledWith fragment).length ≤ maxStubLen) :
    ∀ earlier ∈ (if fragment.isFirst then [] else gathered past) ++ [fragment],
      earlier.callId = fragment.callId := by
  intro earlier hmem
  rcases List.mem_append.mp hmem with hmem | hmem
  · split_ifs at hmem with hfirst
    · cases hmem
    · have hcontinues : machine.continuation? call = some fragment := by
        rw [continuation?, hfragment, Option.filter_some, if_pos]
        simp [hserved, hfirst, hfits]
      obtain ⟨first, rest, hgathered⟩ := List.exists_cons_of_ne_nil (List.ne_nil_of_mem hmem)
      have hhead : (gathered past).head? = some first := by rw [hgathered]; rfl
      rw [hcalls earlier hmem first hhead, hown past machine call [] rfl fragment hcontinues first hhead]
  · rw [List.mem_singleton.mp hmem]

/-- Then all fragments in the buffer are of one call. -/
theorem gathered_callId (past : List (Machine ε σ × Call ε σ)) (hown : OwnContinuations past) :
    ∀ fragment ∈ gathered past, ∀ first, (gathered past).head? = some first →
      fragment.callId = first.callId := by
  induction past using List.reverseRecOn with
  | nil => simp [gathered]
  | append_singleton past transition ih =>
    obtain ⟨machine, call⟩ := transition
    have hcalls := ih hown.of_append
    rw [gathered_concat]
    unfold gatherNext
    cases hfragment : machine.fragment? call with
    | none => exact hcalls
    | some fragment =>
      simp only
      unfold gather
      by_cases hserved : (machine.connection.served? fragment).isNone = true
      · rw [if_pos hserved]
        exact hcalls
      · rw [if_neg hserved]
        by_cases hends : maxStubLen < (machine.connection.assembledWith fragment).length ∨ fragment.isLast = true
        · rw [if_pos hends]
          simp
        · rw [if_neg hends]
          have hjoin := join_callId hown hcalls hfragment (by simpa [Option.isSome_iff_ne_none] using hserved)
            (Nat.le_of_not_lt fun hlong => hends (.inl hlong))
          intro earlier hmem first hfirst
          rw [hjoin earlier hmem, hjoin first (List.mem_of_mem_head? hfirst)]

/-- In every run whose continuations carry the call ID of the call in progress, a
stub is handed over only as what the fragments of the answered call carry, from
its first to its last; and the host is asked only about a stub handed over. -/
theorem stub_of_own_call (h : Runs next (start assocGroup ndr64Enabled entropy host) past machine)
    (hown : OwnContinuations past) {before after : List (Machine ε σ × Call ε σ)} {t : Machine ε σ} {env : Env ε σ}
    {now : Instant} {out : List UInt8} (he : past = before ++ (t, .step env now out) :: after) :
    (∀ handed, t.connection.handed? = some handed →
        (∃ inbound, t.stepped env now out =
          { t.connection.touched now with inbound }.stopReassembly.handleStub env handed.callId handed.contextId
            handed.transfer handed.stub t.entropy t.host out) ∧
        ∃ fragments, fragments.Sublist (requests (before ++ [(t, .step env now out)])) ∧ Fragment.Whole fragments ∧
          (∀ fragment ∈ fragments, fragment.callId = handed.callId) ∧ handed.stub = Fragment.stub fragments) ∧
      ∀ request, (t.stepped env now out).asked = some request →
        ∃ handed parsed decoded, t.connection.handed? = some handed ∧
          Stub.parseRequest handed.stub handed.transfer = .ok parsed ∧
          Kms.decode parsed.data t.connection.ciphers = .ok decoded ∧ decoded.request = request := by
  have hbefore := h.reached he
  have hgathered := gathered_run hbefore
  have hsplit : past = (before ++ [(t, .step env now out)]) ++ after := by simp [he]
  have hownStep : OwnContinuations (before ++ [(t, .step env now out)]) := (hsplit ▸ hown).of_append
  refine ⟨fun handed hhanded => ?_, fun request hasked => ?_⟩
  · obtain ⟨fragment, hfragment, hcall, hstub, hfits, hlast, hserves⟩ := handed?_eq_some hhanded
    refine ⟨step_of_handed env t.entropy t.host out hhanded now,
      (if fragment.isFirst then [] else gathered before) ++ [fragment], ?_, ⟨hgathered.first_join hserves, ?_⟩, ?_, ?_⟩
    · rw [requests_concat]
      show List.Sublist _ (requests before ++ t.connection.fragment?.toList)
      rw [hfragment]
      refine List.Sublist.append ?_ (List.Sublist.refl _)
      split_ifs
      · exact List.nil_sublist _
      · exact gathered_sublist before
    · refine ⟨_, fragment, rfl, hlast, fun earlier hmem => ?_⟩
      split_ifs at hmem
      · cases hmem
      · exact hgathered.unfinished earlier hmem
    · rw [hcall]
      exact join_callId hownStep (gathered_callId before hownStep.of_append) hfragment
        (by simp [served?_eq_some.mpr hserves]) (by rwa [← hstub])
    · rw [hstub, hgathered.items_join fragment]
  · exact handed_of_asked env t.entropy t.host out (sound_run hbefore) now hasked

/-- A client that asks for multiplexing binds, opens call 2, and sends the rest of
the stub under the given call ID; its last fragment is yet to be handled. -/
def continuedAs (callId : UInt32) : List (Call Unit Unit) :=
  [.receive (framed .bind (PacketFlags.complete.union .concMpx) 1 (proposal [0] Wire.ndr32)),
    .step denying 0 (List.replicate 384 0),
    .receive (framed .request .firstFrag 2 ((blankCall 0).take 100)), .step denying 0 (List.replicate 384 0),
    .receive (framed .request .lastFrag callId ((blankCall 0).drop 100))]

/-- The machine that handles the last fragment, and the run up to it. -/
def lastOf (callId : UInt32) : Machine Unit Unit := (continuedAs callId).foldl next (start 0 false () ())

def pastOf (callId : UInt32) : List (Machine Unit Unit × Call Unit Unit) :=
  path next (start 0 false () ()) (continuedAs callId)

theorem runs_lastOf (callId : UInt32) :
    Runs next (start 0 false () ()) (pastOf callId ++ [(lastOf callId, .step denying 0 (List.replicate 384 0))])
      ((lastOf callId).next (.step denying 0 (List.replicate 384 0))) :=
  (Runs.of_path (continuedAs callId)).snoc _

/-- The condition on continuations, as a computation along the run. -/
def ownContinuations : List Fragment → List (Machine ε σ × Call ε σ) → Bool
  | _, [] => true
  | gathered, transition :: rest =>
    (match transition.1.continuation? transition.2, gathered.head? with
      | some fragment, some first => fragment.callId = first.callId
      | _, _ => true) && ownContinuations (gatherNext gathered transition) rest

theorem ownContinuations_sound (past : List (Machine ε σ × Call ε σ)) (gathered : List Fragment)
    (h : ownContinuations gathered past = true) :
    ∀ before machine call after, past = before ++ (machine, call) :: after →
      ∀ fragment, machine.continuation? call = some fragment →
        ∀ first, (before.foldl gatherNext gathered).head? = some first → fragment.callId = first.callId := by
  induction past generalizing gathered with
  | nil => simp
  | cons transition rest ih =>
    rw [ownContinuations, Bool.and_eq_true] at h
    intro before machine call after he fragment hfragment first hfirst
    cases before with
    | nil =>
      cases he
      simp only [List.foldl_nil] at hfirst
      simpa [hfragment, hfirst] using h.1
    | cons _ before =>
      rw [List.cons_append, List.cons.injEq] at he
      obtain ⟨rfl, rfl⟩ := he
      exact ih _ h.2 before machine call after rfl fragment hfragment first hfirst

theorem stub_of_own_call_in_two_fragments :
    ∃ handed, (lastOf 2).connection.handed? = some handed ∧ handed.callId = 2 ∧
      ∃ fragments, Fragment.Whole fragments ∧ (∀ fragment ∈ fragments, fragment.callId = handed.callId) ∧
        handed.stub = Fragment.stub fragments := by
  have hhanded : ((lastOf 2).connection.handed?.map Handed.callId) = some 2 := by decide +kernel
  obtain ⟨handed, hsome, hcall⟩ := Option.map_eq_some_iff.mp hhanded
  have hown : OwnContinuations (pastOf 2 ++ [(lastOf 2, .step denying 0 (List.replicate 384 0))]) :=
    ownContinuations_sound _ [] (by decide +kernel)
  obtain ⟨-, fragments, -, hwhole, hcalls, hstub⟩ := (stub_of_own_call (runs_lastOf 2) hown rfl).1 handed hsome
  exact ⟨handed, hsome, hcall, fragments, hwhole, hcalls, hstub⟩

/-- The rest of a stub under another call's ID completes it, and is answered under
that ID, though no fragment of that call was ever marked first. -/
theorem stub_of_two_calls :
    Runs next (start 0 false () ()) (pastOf 3 ++ [(lastOf 3, .step denying 0 (List.replicate 384 0))])
        ((lastOf 3).next (.step denying 0 (List.replicate 384 0))) ∧
      ((lastOf 3).stepped denying 0 (List.replicate 384 0)).asked.isSome = true ∧
      ∃ handed, (lastOf 3).connection.handed? = some handed ∧ handed.callId = 3 ∧
        ¬ ∃ fragments,
          fragments.Sublist (requests (pastOf 3 ++ [(lastOf 3, .step denying 0 (List.replicate 384 0))])) ∧
          Fragment.Whole fragments ∧ (∀ fragment ∈ fragments, fragment.callId = handed.callId) ∧
          handed.stub = Fragment.stub fragments := by
  have hhanded : ((lastOf 3).connection.handed?.map Handed.callId) = some 3 := by decide +kernel
  obtain ⟨handed, hsome, hcall⟩ := Option.map_eq_some_iff.mp hhanded
  refine ⟨runs_lastOf 3, by decide +kernel, handed, hsome, hcall, ?_⟩
  rintro ⟨fragments, hsublist, ⟨⟨first, rest, rfl, hfirst, -⟩, -⟩, hcalls, -⟩
  have hnone : ∀ fragment ∈ requests (pastOf 3 ++ [(lastOf 3, .step denying 0 (List.replicate 384 0))]),
      fragment.callId = 3 → fragment.isFirst = false := by decide +kernel
  have hother := hnone first (hsublist.mem (by simp)) ((hcalls first (by simp)).trans hcall)
  rw [hfirst] at hother
  cases hother

end Machine

end Kmsrs.Wire
