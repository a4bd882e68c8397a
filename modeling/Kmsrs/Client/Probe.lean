import Kmsrs.Client.Charge

/-! Probing a host for what tells it from a genuine one. Some of it lies in one exchange,
some only between requests on one connection or between connections. -/

namespace Kmsrs.Client

open Kmsrs.Bytes Kmsrs.Crypto Kmsrs.Kms Kmsrs.Wire Kmsrs.Wire.Client Kmsrs.Db Kmsrs.Policy
open Kmsrs.Server (Host)

def absurdRequiredClients : UInt32 := 5000

/-- Hardware IDs that identify a stock deployment. -/
def suspiciousHardwareIds : List (Vector UInt8 8) :=
  [#v[0x36, 0x4F, 0x46, 0x3A, 0x88, 0x63, 0xD3, 0x5F], Vector.replicate 8 0, Vector.replicate 8 0xFF]

/-- Something about a host that distinguishes it from a genuine one. -/
inductive Finding where
  | probeRefused (error : ProbeError)
  | responseCheckFailed (check : Check) (version : Version)
  | conversation (warning : ReplyWarning)
  | ndr32NotSupported
  | epidNotStable (first second : List Char)
  | associationGroupConstant (value : UInt32)
  | suspiciousHardwareId (hardwareId : Vector UInt8 8)
  | absurdCountReflected (demanded reported : UInt32)

structure Report where
  exchanges : List Exchange
  findings : List Finding

def Report.isClean (report : Report) : Bool := report.findings.isEmpty

/-- How to probe a host. -/
structure Probe where
  fields : RequestFields
  versions : List Version

/-- A probe on its way. -/
structure Prober (ν δ : Type) where
  entropy : δ
  stream : ν
  report : Report

namespace Prober

variable {ν δ : Type}

def found (prober : Prober ν δ) (findings : List Finding) : Prober ν δ :=
  { prober with report := { prober.report with findings := prober.report.findings ++ findings } }

def exchanged (prober : Prober ν δ) (exchange : Exchange) : Prober ν δ :=
  { prober with report := { prober.report with exchanges := prober.report.exchanges ++ [exchange] } }

end Prober

/-- The first value that is repeated behind it. -/
def repeated : List UInt32 → Option UInt32
  | [] => none
  | group :: groups => if group ∈ groups then some group else repeated groups

namespace Probe

section
variable {ν δ : Type} (network : Network ν) (D : Digests) (rng : EntropySource δ)

/-- What an exchange shows. -/
def shows (version : Version) (exchange : Exchange) : List Finding :=
  (exchange.checks.failures.map fun check => .responseCheckFailed check version) ++
    (exchange.hardwareId.toList.filter (· ∈ suspiciousHardwareIds)).map .suspiciousHardwareId

/-- One activation, with every response property turned into a finding. -/
def judge (session : Session) (fields : RequestFields) (prober : Prober ν δ) :
    Except ProbeError Exchange × Session × Prober ν δ :=
  let (spoken, session, entropy) := session.activate network D rng fields prober.entropy prober.stream
  let prober := { prober with entropy, stream := spoken.stream }
  match spoken.result with
  | .error error => (.error error, session, prober)
  | .ok exchange =>
    (.ok exchange, session, prober.found (spoken.warnings.map .conversation ++ shows fields.version exchange))

/-- The request of a round, from a machine of its own. -/
def round (probe : Probe) (version : Version) (number : UInt8) : RequestFields :=
  { probe.fields with version, clientMachineId := probe.fields.clientMachineId.setIfInBounds 0 number }

/-- One connection, two activations, comparing the ePID between them. -/
def exchangePair (probe : Probe) (version : Version) (prober : Prober ν δ) : Except ProbeError UInt32 × Prober ν δ :=
  let spoken := Session.open network prober.stream true
  let prober := { prober with stream := spoken.stream }
  match spoken.result with
  | .error error => (.error error, prober)
  | .ok session =>
    match judge network D rng session (probe.round version 0) (prober.found (spoken.warnings.map .conversation)) with
    | (.error error, _, prober) => (.error error, prober)
    | (.ok first, session, prober) =>
      match judge network D rng session (probe.round version 1) (prober.exchanged first) with
      | (.error error, _, prober) => (.error error, prober)
      | (.ok second, session, prober) =>
        (.ok session.assocGroup,
          (prober.exchanged second).found (if first.epid = second.epid then [] else [.epidNotStable first.epid second.epid]))

/-- A pair for each version, and the groups of their connections. -/
def exchangePairs (probe : Probe) : List Version → Prober ν δ → Except ProbeError (List UInt32) × Prober ν δ
  | [], prober => (.ok [], prober)
  | version :: versions, prober =>
    match probe.exchangePair network D rng version prober with
    | (.error error, prober) => (.error error, prober)
    | (.ok group, prober) =>
      match exchangePairs probe versions prober with
      | (.error error, prober) => (.error error, prober)
      | (.ok groups, prober) => (.ok (group :: groups), prober)

/-- Whether the host accepts a bind that offers NDR32 and nothing else. Hanging up on it
is an answer. -/
def acceptsNdr32Alone (stream : ν) : Except ProbeError Bool × ν :=
  match network.connect stream with
  | (false, stream) => (.error .io, stream)
  | (true, stream) =>
    match ClientAssociation.new.bind (List.replicate outLen 0) false with
    | (.error error, _) => (.error (.build error), stream)
    | (.ok (len, callId, out), association) =>
      match network.writeAll stream ((range out 0 len).getD []) with
      | (false, stream) => (.error .io, stream)
      | (true, stream) =>
        match readPdu network stream with
        | (none, stream) => (.ok false, stream)
        | (some reply, stream) =>
          match (association.readReply reply callId .ndr32).1.1 with
          | .ok (.bindAck _ accepted) => (.ok (accepted.any fun context => context.transfer = .ndr32), stream)
          | .ok (.response _ _) | .error _ => (.ok false, stream)

/-- Whether the host gives an absurd demand back, to a machine it has not seen. -/
def reflectsAbsurdCount (probe : Probe) (prober : Prober ν δ) : Except ProbeError (Option UInt32) × Prober ν δ :=
  let spoken := Session.open network prober.stream true
  let prober := { prober with stream := spoken.stream }
  match spoken.result with
  | .error error => (.error error, prober)
  | .ok session =>
    let fields := { probe.fields with clientMachineId := Vector.replicate 16 0xA5, requiredClients := absurdRequiredClients }
    match judge network D rng session fields prober with
    | (.error error, _, prober) => (.error error, prober)
    | (.ok exchange, _, prober) =>
      (.ok (if absurdRequiredClients ≤ exchange.count then some exchange.count else none), prober)

/-- The full suite. A refusal of the absurd demand is recorded, any other failure ends it. -/
def run (probe : Probe) (entropy : δ) (stream : ν) : Except ProbeError Report :=
  match probe.exchangePairs network D rng probe.versions ⟨entropy, stream, [], []⟩ with
  | (.error error, _) => .error error
  | (.ok groups, prober) =>
    let prober := prober.found ((repeated groups).toList.map .associationGroupConstant)
    match acceptsNdr32Alone network prober.stream with
    | (.error error, _) => .error error
    | (.ok accepted, stream) =>
      let prober := { prober with stream }.found (if accepted then [] else [.ndr32NotSupported])
      match probe.reflectsAbsurdCount network D rng prober with
      | (.ok reported, prober) =>
        .ok (prober.found (reported.toList.map (.absurdCountReflected absurdRequiredClients))).report
      | (.error error, prober) => .ok (prober.found [.probeRefused error]).report

/-- Connect, bind, activate and decode, whatever the answer shows. -/
def healthCheck (probe : Probe) (entropy : δ) (stream : ν) : Except ProbeError Exchange :=
  let spoken := Session.open network stream true
  match spoken.result with
  | .error error => .error error
  | .ok session => (session.activate network D rng probe.fields entropy spoken.stream).1.result

end

end Probe

/-! ### Against the host itself -/

theorem repeated_eq_none {groups : List UInt32} : repeated groups = none ↔ groups.Nodup := by
  induction groups with
  | nil => exact ⟨fun _ => List.nodup_nil, fun _ => rfl⟩
  | cons group groups ih =>
    rw [repeated, List.nodup_cons, ← ih]
    split_ifs with hmem
    · simp [hmem]
    · simp [hmem]

section
variable {ν δ : Type} {network : Network ν} {D : Digests} {rng : EntropySource δ}

/-- The group of a session is the one it was opened with. -/
theorem Session.assocGroup_activate (session : Session) (fields : RequestFields) (entropy : δ) (stream : ν) :
    (session.activate network D rng fields entropy stream).2.1.assocGroup = session.assocGroup := by
  unfold Session.activate
  split
  · rfl
  · dsimp only
    split
    · rfl
    · split
      · rfl
      · split <;> rfl

/-- A host on which a conversation opens with NDR32 as the only offer accepts it alone. -/
theorem Probe.acceptsNdr32Alone_of_open {stream stream' : ν} {session : Session} {warnings : List ReplyWarning}
    (h : Session.open network stream false = ⟨.ok session, warnings, stream'⟩) :
    acceptsNdr32Alone network stream = (.ok (session.accepted.transfer = .ndr32), stream') := by
  unfold Session.open at h
  unfold acceptsNdr32Alone
  generalize network.connect stream = connected at h ⊢
  obtain ⟨_ | _, opened⟩ := connected
  · cases h
  dsimp only at h ⊢
  generalize ClientAssociation.new.bind (List.replicate outLen 0) false = built at h ⊢
  obtain ⟨_ | ⟨len, callId, out⟩, association⟩ := built
  · cases h
  dsimp only [exchangePdus] at h ⊢
  generalize network.writeAll opened ((range out 0 len).getD []) = sent at h ⊢
  obtain ⟨_ | _, written⟩ := sent
  · cases h
  dsimp only at h ⊢
  generalize readPdu network written = answer at h ⊢
  obtain ⟨_ | reply, answered⟩ := answer
  · cases h
  dsimp only at h ⊢
  generalize association.readReply reply callId .ndr32 = heard at h ⊢
  obtain ⟨⟨_ | ⟨_, _ | accepted⟩ | _, _⟩, _⟩ := heard
  all_goals cases h
  rfl

end

/-- What a host of one identity shows in an exchange: that identity, and no failure but
where the vectors that the two sources drew collide. -/
structure Ours {ε δ : Type} (endpoint : Endpoint ε) (client : EntropySource δ) (identity : GroupIdentity) (exchange : Exchange) :
    Prop where
  epid : exchange.epid = decodeLossy identity.epid.units
  hardwareId : exchange.hardwareId = if exchange.version = .v6 then some identity.hardwareId else none
  failures : ∃ requestIv freshIv salt,
    (∃ entropy entropy', Draws client entropy (requestDraws exchange.version requestIv) entropy') ∧
    (∃ entropy entropy', Draws endpoint.rng entropy (responseDraws exchange.version freshIv salt) entropy') ∧
    ∀ check, exchange.checks.outcome check = .fail ↔ VectorsCollide .new exchange.version requestIv freshIv check

section
variable {ε δ : Type} {catalogue : Catalogue} {endpoint : Endpoint ε} {client : EntropySource δ} {fields : RequestFields}

/-- The gates do not read the version. -/
theorem Welcome.framed_as (h : Welcome endpoint catalogue fields) (hplain : fields.declaredVersion = none) (version : Version) :
    Welcome endpoint catalogue { fields with version } where
  short := h.short
  declared := by rw [RequestFields.declared, hplain, Option.getD_none]
  passes hostTime := by
    refine (refusal_congr endpoint.features catalogue ?_ ?_ ?_ hostTime).trans (h.passes hostTime)
    all_goals simp only [Request.fromBody, RequestFields.body]

/-- The identity that answers for the fields of a probe. -/
def answering (host : Host catalogue) (fields : RequestFields) : GroupIdentity :=
  (host.identity.select fields.application fields.kmsId).2

/-- A probe of the host itself on its way: the host keeps its identity, and what was found
is what the exchanges show. -/
structure Plain (endpoint : Endpoint ε) (client : EntropySource δ) (fields : RequestFields) (identity : GroupIdentity)
    (prober : Prober (Loopback ε catalogue) δ) : Prop where
  answers : answering prober.stream.machine.host fields = identity
  ours : ∀ exchange ∈ prober.report.exchanges, Ours endpoint client identity exchange
  findings : prober.report.findings = prober.report.exchanges.flatMap fun exchange => Probe.shows exchange.version exchange

variable {identity : GroupIdentity} {session : Session} {prober : Prober (Loopback ε catalogue) δ}

/-- One activation of the host itself. -/
theorem judge_own_host (hworks : endpoint.rng.Works) (hclient : client.Works) (hin : InStep session prober.stream)
    (h : Welcome endpoint catalogue fields) :
    ∃ exchange session' prober', Probe.judge (loopback endpoint) endpoint.digests client session fields prober =
        (.ok exchange, session', prober') ∧
      prober'.report = ⟨prober.report.exchanges, prober.report.findings ++ Probe.shows exchange.version exchange⟩ ∧
      exchange.version = fields.version ∧ exchange.assocGroup = session.assocGroup ∧ session'.assocGroup = session.assocGroup ∧
      Ours endpoint client (answering prober.stream.machine.host fields) exchange ∧
      (∃ cached, exchange.count = Counting.reported cached fields.requiredClients) ∧ InStep session' prober'.stream ∧
      prober'.stream.machine.host.identity = prober.stream.machine.host.identity := by
  obtain ⟨exchange, requestIv, freshIv, salt, cached, hresult, hwarnings, hrequest, hresponse, hreports, hin', hidentity⟩ :=
    @granted_of_welcome ε δ catalogue endpoint client fields hworks hclient ⟨session, prober.entropy, prober.stream⟩ hin h
  have hgroup := @Session.assocGroup_activate _ _ (@loopback ε catalogue endpoint) endpoint.digests client session fields
    prober.entropy prober.stream
  simp only [Conversation.said, Conversation.next, Conversation.host] at hresult hwarnings hin' hidentity hreports hrequest hresponse
  unfold Probe.judge
  generalize session.activate (loopback endpoint) endpoint.digests client fields prober.entropy prober.stream = activated
    at hresult hwarnings hin' hidentity hgroup hrequest hresponse ⊢
  obtain ⟨⟨result, warnings, stream⟩, session', entropy⟩ := activated
  dsimp only at hresult hwarnings hin' hidentity hgroup hrequest hresponse ⊢
  rw [hresult, hwarnings]
  refine ⟨exchange, session', _, rfl, ?_, hreports.version, hreports.assocGroup, hgroup, ⟨hreports.epid, ?_, ?_⟩,
    ⟨cached, hreports.count⟩, hin', hidentity⟩
  · rw [hreports.version]
    rfl
  · rw [hreports.version]
    exact hreports.hardwareId
  · rw [hreports.version]
    exact ⟨requestIv, freshIv, salt, ⟨_, _, hrequest⟩, ⟨_, _, hresponse⟩, hreports.failures⟩

/-- An exchange that is recorded with what it shows. -/
theorem Plain.exchanged (h : Plain endpoint client fields identity prober) {prober' : Prober (Loopback ε catalogue) δ}
    {exchange : Exchange} (hhost : prober'.stream.machine.host.identity = prober.stream.machine.host.identity)
    (hours : Ours endpoint client identity exchange)
    (hreport : prober'.report = ⟨prober.report.exchanges, prober.report.findings ++ Probe.shows exchange.version exchange⟩) :
    Plain endpoint client fields identity (prober'.exchanged exchange) where
  answers := by
    rw [← h.answers]
    exact congrArg (fun held : HostIdentity catalogue => (held.select fields.application fields.kmsId).2) hhost
  ours := by
    intro other hother
    rw [Prober.exchanged, hreport] at hother
    rcases List.mem_append.mp hother with hother | hother
    · exact h.ours other hother
    · rw [List.mem_singleton.mp hother]
      exact hours
  findings := by
    rw [Prober.exchanged, hreport, List.flatMap_append, ← h.findings]
    simp

/-- One pair of activations of the host itself. -/
theorem exchangePair_own_host {probe : Probe} (hworks : endpoint.rng.Works) (hclient : client.Works)
    (h : Welcome endpoint catalogue probe.fields) (hplain : probe.fields.declaredVersion = none) (version : Version)
    (hprober : Plain endpoint client probe.fields identity prober) :
    ∃ group first second prober',
      probe.exchangePair (loopback endpoint) endpoint.digests client version prober = (.ok group, prober') ∧
      Plain endpoint client probe.fields identity prober' ∧
      prober'.report.exchanges = prober.report.exchanges ++ [first, second] ∧
      ∀ exchange ∈ [first, second], exchange.version = version ∧ exchange.assocGroup = group := by
  have hwelcome (number : UInt8) : Welcome endpoint catalogue (probe.round version number) :=
    (h.asks_as (probe.fields.clientMachineId.setIfInBounds 0 number) probe.fields.requiredClients).framed_as hplain version
  obtain ⟨session, stream, hopen, -, -, hin, hhost⟩ := open_loopback endpoint hworks prober.stream true
  obtain ⟨opened, hopened⟩ : ∃ opened : Prober (Loopback ε catalogue) δ, opened = { prober with stream } := ⟨_, rfl⟩
  have hopenedPlain : Plain endpoint client probe.fields identity opened := by
    rw [hopened]
    exact ⟨by rw [hhost]; exact hprober.answers, hprober.ours, hprober.findings⟩
  have hnone : ({ prober with stream } : Prober (Loopback ε catalogue) δ).found
      (List.map Finding.conversation ([] : List ReplyWarning)) = opened := by
    rw [hopened, Prober.found, List.map_nil, List.append_nil]
  obtain ⟨first, session₁, prober₁, hfirst, hreport₁, hversion₁, hgroup₁, hkept₁, hours₁, -, hin₁, hhost₁⟩ :=
    @judge_own_host _ _ _ _ _ _ _ opened hworks hclient (by rw [hopened]; exact hin) (hwelcome 0)
  have hplain₁ := hopenedPlain.exchanged hhost₁ (hopenedPlain.answers ▸ hours₁) hreport₁
  obtain ⟨second, session₂, prober₂, hsecond, hreport₂, hversion₂, hgroup₂, hkept₂, hours₂, -, -, hhost₂⟩ :=
    @judge_own_host _ _ _ _ _ _ _ (prober₁.exchanged first) hworks hclient hin₁ (hwelcome 1)
  have hplain₂ := hplain₁.exchanged hhost₂ (hplain₁.answers ▸ hours₂) hreport₂
  have hepid : first.epid = second.epid := by
    rw [hours₁.epid, hours₂.epid]
    exact congrArg (fun identity : GroupIdentity => decodeLossy identity.epid.units) (hopenedPlain.answers.trans hplain₁.answers.symm)
  have hrun : probe.exchangePair (loopback endpoint) endpoint.digests client version prober =
      (.ok session₂.assocGroup, (prober₂.exchanged second).found []) := by
    rw [Probe.exchangePair, hopen]
    dsimp only
    rw [hnone, hfirst]
    dsimp only
    rw [hsecond]
    dsimp only
    rw [if_pos hepid]
  refine ⟨_, first, second, _, hrun, ?_, ?_, ?_⟩
  · rw [Prober.found, List.append_nil]
    exact hplain₂
  · rw [Prober.found, Prober.exchanged, hreport₂, Prober.exchanged, hreport₁, hopened]
    simp
  · intro exchange hexchange
    rw [hkept₂, hkept₁]
    simp only [List.mem_cons, List.not_mem_nil, or_false] at hexchange
    obtain rfl | rfl := hexchange
    · exact ⟨hversion₁, hgroup₁⟩
    · exact ⟨hversion₂, hgroup₂.trans hkept₁⟩

/-- A pair for each version, each on a connection of its own. -/
theorem exchangePairs_own_host {probe : Probe} (hworks : endpoint.rng.Works) (hclient : client.Works)
    (h : Welcome endpoint catalogue probe.fields) (hplain : probe.fields.declaredVersion = none) (versions : List Version)
    (hprober : Plain endpoint client probe.fields identity prober) :
    ∃ groups exchanges prober',
      probe.exchangePairs (loopback endpoint) endpoint.digests client versions prober = (.ok groups, prober') ∧
      Plain endpoint client probe.fields identity prober' ∧ prober'.report.exchanges = prober.report.exchanges ++ exchanges ∧
      exchanges.map Exchange.version = versions.flatMap (List.replicate 2) ∧
      exchanges.map Exchange.assocGroup = groups.flatMap (List.replicate 2) := by
  induction versions generalizing prober with
  | nil => exact ⟨[], [], prober, rfl, hprober, (List.append_nil _).symm, rfl, rfl⟩
  | cons version versions ih =>
    obtain ⟨group, first, second, prober₁, hpair, hprober₁, hexchanges₁, hboth⟩ :=
      exchangePair_own_host hworks hclient h hplain version hprober
    obtain ⟨groups, exchanges, prober₂, hpairs, hprober₂, hexchanges₂, hversions, hgroups⟩ := ih hprober₁
    obtain ⟨⟨hversion₁, hgroup₁⟩, ⟨hversion₂, hgroup₂⟩, -⟩ : (first.version = version ∧ first.assocGroup = group) ∧
        (second.version = version ∧ second.assocGroup = group) ∧ True := by
      simpa using hboth
    refine ⟨group :: groups, first :: second :: exchanges, prober₂, ?_, hprober₂, ?_, ?_, ?_⟩
    · rw [Probe.exchangePairs, hpair]
      dsimp only
      rw [hpairs]
    · rw [hexchanges₂, hexchanges₁, List.append_assoc]
      rfl
    · rw [List.map_cons, List.map_cons, hversion₁, hversion₂, hversions]
      rfl
    · rw [List.map_cons, List.map_cons, hgroup₁, hgroup₂, hgroups]
      rfl

/-- An exchange shows nothing when no check failed and its hardware ID is nobody's stock. -/
theorem shows_eq_nil {version : Version} {exchange : Exchange} : Probe.shows version exchange = [] ↔
    (∀ check, exchange.checks.outcome check ≠ .fail) ∧
      ∀ hardwareId ∈ exchange.hardwareId, hardwareId ∉ suspiciousHardwareIds := by
  rw [Probe.shows, List.append_eq_nil_iff, List.map_eq_nil_iff, List.map_eq_nil_iff, Checks.failures, List.filter_eq_nil_iff,
    List.filter_eq_nil_iff]
  simp only [decide_eq_true_eq, Option.mem_toList]
  exact and_congr_left fun _ => ⟨fun h check => h check (by cases check <;> decide), fun h check _ => h check⟩

/-- The full probe of the host itself. It finds what its exchanges show, and a group that
two connections drew alike: its ePID is stable, it accepts NDR32 alone and it gives no
absurd demand back. -/
theorem probe_own_host (probe : Probe) (hworks : endpoint.rng.Works) (hclient : client.Works)
    (h : Welcome endpoint catalogue probe.fields) (hplain : probe.fields.declaredVersion = none) (entropy : δ)
    (stream : Loopback ε catalogue) :
    ∃ report groups last, Probe.run (loopback endpoint) endpoint.digests client probe entropy stream = .ok report ∧
      report.exchanges.map Exchange.version = probe.versions.flatMap (List.replicate 2) ∧
      report.exchanges.map Exchange.assocGroup = groups.flatMap (List.replicate 2) ∧
      (∀ exchange ∈ report.exchanges ++ [last], Ours endpoint client (answering stream.machine.host probe.fields) exchange) ∧
      report.findings = (report.exchanges.flatMap fun exchange => Probe.shows exchange.version exchange) ++
        (repeated groups).toList.map .associationGroupConstant ++ Probe.shows last.version last ∧
      (report.isClean ↔ groups.Nodup ∧ ∀ exchange ∈ report.exchanges ++ [last],
        (∀ check, exchange.checks.outcome check ≠ .fail) ∧
          ∀ hardwareId ∈ exchange.hardwareId, hardwareId ∉ suspiciousHardwareIds) := by
  obtain ⟨identity, hidentity⟩ : ∃ identity, identity = answering stream.machine.host probe.fields := ⟨_, rfl⟩
  have hstart : Plain endpoint client probe.fields identity (⟨entropy, stream, [], []⟩ : Prober (Loopback ε catalogue) δ) :=
    ⟨hidentity.symm, by simp, rfl⟩
  obtain ⟨groups, exchanges, prober₁, hpairs, hprober₁, hexchanges, hversions, hgroups⟩ :=
    exchangePairs_own_host hworks hclient h hplain probe.versions hstart
  rw [show (⟨entropy, stream, [], []⟩ : Prober (Loopback ε catalogue) δ).report.exchanges = [] from rfl,
    List.nil_append] at hexchanges
  -- the bind that offers NDR32 alone
  obtain ⟨session₂, stream₂, hopen₂, haccepted, -, -, hhost₂⟩ := open_loopback endpoint hworks prober₁.stream false
  have halone := Probe.acceptsNdr32Alone_of_open hopen₂
  rw [haccepted, show decide ((settledOn false endpoint.ndr64Enabled).transfer = .ndr32) = true from rfl] at halone
  -- the absurd demand, on a connection of its own
  obtain ⟨session₃, stream₃, hopen₃, -, -, hin₃, hhost₃⟩ := open_loopback endpoint hworks stream₂ true
  obtain ⟨asking, hasking⟩ : ∃ asking : Prober (Loopback ε catalogue) δ, asking = { (({ (prober₁.found
      ((repeated groups).toList.map .associationGroupConstant)) with stream := stream₂ } :
        Prober (Loopback ε catalogue) δ).found []) with stream := stream₃ } := ⟨_, rfl⟩
  obtain ⟨last, session₄, prober₄, hjudge, hreport₄, -, -, -, hours₄, ⟨cached, hcount⟩, -, -⟩ :=
    @judge_own_host _ _ _ _ _ _ session₃ asking hworks hclient (by rw [hasking]; exact hin₃)
      (h.asks_as (Vector.replicate 16 0xA5) absurdRequiredClients)
  have hmodest : ¬ absurdRequiredClients ≤ last.count := by
    rw [UInt32.le_iff_toNat_le, hcount, Counting.reported_toNat,
      if_neg (show ¬ absurdRequiredClients.toNat ≤ 100 by decide)]
    exact Nat.not_le_of_lt ((min_le_right _ _).trans_lt (by decide))
  have hrun : Probe.run (loopback endpoint) endpoint.digests client probe entropy stream = .ok (prober₄.found []).report := by
    rw [Probe.run, hpairs]
    dsimp only
    rw [show (prober₁.found ((repeated groups).toList.map .associationGroupConstant)).stream = prober₁.stream from rfl, halone]
    dsimp only
    rw [if_pos rfl, Probe.reflectsAbsurdCount]
    dsimp only [Prober.found] at hasking ⊢
    rw [hopen₃]
    dsimp only
    rw [← hasking, hjudge]
    dsimp only
    rw [if_neg hmodest]
    rfl
  obtain ⟨report, hreport⟩ : ∃ report, report = (prober₄.found []).report := ⟨_, rfl⟩
  have hexchanges' : report.exchanges = exchanges := by
    rw [hreport, Prober.found, hreport₄, hasking]
    exact hexchanges
  have hfindings : report.findings = (report.exchanges.flatMap fun exchange => Probe.shows exchange.version exchange) ++
      (repeated groups).toList.map .associationGroupConstant ++ Probe.shows last.version last := by
    rw [hexchanges', hreport, Prober.found, hreport₄, hasking, List.append_nil, ← hexchanges, ← hprober₁.findings]
    simp only [Prober.found, List.append_nil]
  have hours : ∀ exchange ∈ report.exchanges ++ [last],
      Ours endpoint client (answering stream.machine.host probe.fields) exchange := by
    have hkept : answering asking.stream.machine.host probe.fields = identity := by
      rw [hasking, ← hprober₁.answers, ← hhost₂, ← hhost₃]
    rw [← hidentity, hexchanges', ← hexchanges, List.forall_mem_append, List.forall_mem_singleton]
    exact ⟨hprober₁.ours, hkept ▸ hours₄⟩
  refine ⟨report, groups, last, hrun.trans (congrArg _ hreport.symm), by rw [hexchanges', hversions],
    by rw [hexchanges', hgroups], hours, hfindings, ?_⟩
  rw [Report.isClean, hfindings, List.isEmpty_iff, List.append_eq_nil_iff, List.append_eq_nil_iff, List.map_eq_nil_iff,
    Option.toList_eq_nil_iff, repeated_eq_none, List.flatMap_eq_nil_iff]
  simp only [shows_eq_nil, List.forall_mem_append, List.forall_mem_singleton, and_assoc, and_left_comm]

/-- A health check of the host itself passes, whatever the activation shows. -/
theorem healthCheck_own_host (probe : Probe) (hworks : endpoint.rng.Works) (hclient : client.Works)
    (h : Welcome endpoint catalogue probe.fields) (entropy : δ) (stream : Loopback ε catalogue) :
    ∃ exchange, Probe.healthCheck (loopback endpoint) endpoint.digests client probe entropy stream = .ok exchange := by
  obtain ⟨session, opened, hopen, -, -, hin, -⟩ := open_loopback endpoint hworks stream true
  obtain ⟨exchange, _, _, _, _, hresult, -⟩ :=
    @granted_of_welcome ε δ catalogue endpoint client probe.fields hworks hclient ⟨session, entropy, opened⟩ hin h
  refine ⟨exchange, ?_⟩
  rw [Probe.healthCheck, hopen]
  exact hresult

end

theorem probe_own_host_sample : ∃ report,
    Probe.run (loopback sampleEndpoint) sampleEndpoint.digests constantDraws ⟨sampleFields, [.v4, .v5, .v6]⟩ () sampleStream =
        .ok report ∧
      report.exchanges.map Exchange.version = [.v4, .v4, .v5, .v5, .v6, .v6] ∧
      ∀ exchange ∈ report.exchanges, exchange.epid =
        decodeLossy (answering sampleStream.machine.host sampleFields).epid.units := by
  have hworks : constantDraws.Works := fun _ n => ⟨Vector.replicate n 0x5a, (), rfl⟩
  obtain ⟨report, _, last, hrun, hversions, -, hours, -⟩ :=
    probe_own_host ⟨sampleFields, [.v4, .v5, .v6]⟩ hworks hworks welcome_sampleFields rfl () sampleStream
  exact ⟨report, hrun, hversions, fun exchange hexchange => (hours exchange (List.mem_append_left _ hexchange)).epid⟩

end Kmsrs.Client
