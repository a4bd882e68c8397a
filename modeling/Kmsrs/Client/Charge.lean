import Kmsrs.Client.Loopback

/-! Charging a host towards its threshold: requests from fresh machines, until the count
that is reported reaches the threshold or stops rising. -/

namespace Kmsrs.Client

open Kmsrs.Crypto Kmsrs.Kms Kmsrs.Wire Kmsrs.Db Kmsrs.Policy

inductive Charged where
  | reached (count : UInt32) (requests : ℕ)
  | saturated (count threshold : UInt32)
deriving DecidableEq

/-- How many requests in a row may leave the count where it is. -/
def stallRounds : ℕ := 3

/-- Where a run stands, with what came back so far. -/
structure Charging (ν δ : Type) where
  session : Session
  entropy : δ
  stream : ν
  best : UInt32
  stalled : ℕ
  exchanges : List Exchange

section
variable {ν δ : Type} (network : Network ν) (D : Digests) (rng : EntropySource δ) (fields : RequestFields)

/-- The rounds that are left, one request each; `sent` is the number of the next. -/
def charge : ℕ → ℕ → Charging ν δ → Except ProbeError Charged × Charging ν δ
  | 0, _, charging => (.ok (.saturated charging.best fields.requiredClients), charging)
  | left + 1, sent, charging =>
    match rng.fill charging.entropy 16 with
    | (none, entropy) => (.error .entropyUnavailable, { charging with entropy })
    | (some bytes, entropy) =>
      let (spoken, session, entropy) :=
        charging.session.activate network D rng { fields with clientMachineId := bytes } entropy charging.stream
      let charging := { charging with session, entropy, stream := spoken.stream }
      match spoken.result with
      | .error error => (.error error, charging)
      | .ok exchange =>
        let charging := { charging with exchanges := charging.exchanges ++ [exchange] }
        if fields.requiredClients ≤ exchange.count then (.ok (.reached exchange.count sent), charging)
        else if charging.best < exchange.count then
          charge left (sent + 1) { charging with best := exchange.count, stalled := 0 }
        else
          let stalled := charging.stalled + 1
          if stallRounds ≤ stalled then
            (.ok (.saturated charging.best fields.requiredClients), { charging with stalled })
          else charge left (sent + 1) { charging with stalled }

/-- Open a conversation and charge in it, up to so many requests. -/
def Charge.run (limit : UInt32) (entropy : δ) (stream : ν) : Except ProbeError Charged × List Exchange :=
  let spoken := Session.open network stream true
  match spoken.result with
  | .error error => (.error error, [])
  | .ok session =>
    let (result, charging) := charge network D rng fields limit.toNat 1 ⟨session, entropy, spoken.stream, 0, 0, []⟩
    (result, charging.exchanges)

end

/-! ### How it ends -/

/-- The highest count of some exchanges. -/
def highest (exchanges : List Exchange) : ℕ := (exchanges.map fun exchange => exchange.count.toNat).foldl max 0

theorem highest_append (exchanges : List Exchange) (exchange : Exchange) :
    highest (exchanges ++ [exchange]) = max (highest exchanges) exchange.count.toNat := by
  simp [highest]

/-- Counts that are no higher than the best do not raise it. -/
theorem highest_append_of_le {earlier late : List Exchange}
    (h : ∀ exchange ∈ late, exchange.count.toNat ≤ highest earlier) : highest (earlier ++ late) = highest earlier := by
  induction late using List.reverseRecOn with
  | nil => rw [List.append_nil]
  | append_singleton late exchange ih =>
    have hlate := ih fun other hother => h other (List.mem_append_left _ hother)
    have hlast := h exchange (List.mem_append_right _ (List.mem_singleton_self _))
    rw [← List.append_assoc, highest_append, hlate, max_eq_left hlast]

theorem highest_le {exchanges : List Exchange} {bound : ℕ} (h : ∀ exchange ∈ exchanges, exchange.count.toNat ≤ bound) :
    highest exchanges ≤ bound := by
  induction exchanges using List.reverseRecOn with
  | nil => exact Nat.zero_le _
  | append_singleton exchanges exchange ih =>
    rw [highest_append, max_le_iff]
    exact ⟨ih fun other hother => h other (List.mem_append_left _ hother),
      h exchange (List.mem_append_right _ (List.mem_singleton_self _))⟩

section
variable {ν δ : Type} {threshold : UInt32}

/-- What holds between two rounds: no count was enough, and the last ones, as many as are
stalled, were no higher than the best before them. -/
structure Climbing (threshold : UInt32) (charging : Charging ν δ) : Prop where
  short : ∀ exchange ∈ charging.exchanges, exchange.count.toNat < threshold.toNat
  patient : charging.stalled < stallRounds
  stalls : ∃ earlier late, charging.exchanges = earlier ++ late ∧ late.length = charging.stalled ∧
    charging.best.toNat = highest earlier ∧ ∀ exchange ∈ late, exchange.count.toNat ≤ highest earlier
  few : charging.exchanges.length ≤ stallRounds * charging.best.toNat + charging.stalled

theorem Climbing.best_eq {charging : Charging ν δ} (h : Climbing threshold charging) :
    charging.best.toNat = highest charging.exchanges := by
  obtain ⟨earlier, late, hsplit, -, hbest, hlate⟩ := h.stalls
  rw [hsplit, highest_append_of_le hlate, hbest]

/-- The best count was itself not enough. -/
theorem Climbing.best_lt {charging : Charging ν δ} (h : Climbing threshold charging) (hpos : 0 < threshold.toNat) :
    charging.best.toNat < threshold.toNat := by
  have hhighest : highest charging.exchanges ≤ threshold.toNat - 1 :=
    highest_le fun exchange hexchange => Nat.le_sub_one_of_lt (h.short exchange hexchange)
  rw [h.best_eq]
  omega

/-- There is room for one more. -/
theorem Climbing.length_lt {charging : Charging ν δ} (h : Climbing threshold charging) :
    charging.exchanges.length + 1 ≤ max 1 (stallRounds * threshold.toNat) := by
  have hfew := h.few
  have hpatient := h.patient
  rcases Nat.eq_zero_or_pos threshold.toNat with hzero | hpos
  · have hnone : charging.exchanges = [] := by
      rw [List.eq_nil_iff_forall_not_mem]
      intro exchange hexchange
      have hshort := h.short exchange hexchange
      omega
    rw [hnone]
    exact le_max_left _ _
  · have hbest := h.best_lt hpos
    simp only [stallRounds] at hfew hpatient ⊢
    omega

/-- A count that is higher than any before starts the climb again. -/
theorem Climbing.rise {charging : Charging ν δ} (h : Climbing threshold charging) {exchange : Exchange}
    (hshort : exchange.count.toNat < threshold.toNat) (hrise : charging.best.toNat < exchange.count.toNat) :
    Climbing threshold
      { charging with exchanges := charging.exchanges ++ [exchange], best := exchange.count, stalled := 0 } where
  short := by
    intro other hother
    rcases List.mem_append.mp hother with hother | hother
    · exact h.short other hother
    · rw [List.mem_singleton.mp hother]
      exact hshort
  patient := Nat.zero_lt_succ 2
  stalls := by
    refine ⟨charging.exchanges ++ [exchange], [], (List.append_nil _).symm, rfl, ?_, by simp⟩
    rw [highest_append, ← h.best_eq, max_eq_right hrise.le]
  few := by
    have hfew := h.few
    have hpatient := h.patient
    simp only [List.length_append, List.length_singleton, stallRounds] at hfew hpatient ⊢
    omega

/-- One that is not stalls it. -/
theorem Climbing.stall {charging : Charging ν δ} (h : Climbing threshold charging) {exchange : Exchange}
    (hshort : exchange.count.toNat < threshold.toNat) (hstall : ¬ charging.best.toNat < exchange.count.toNat) :
    (∀ other ∈ charging.exchanges ++ [exchange], other.count.toNat < threshold.toNat) ∧
      (∃ earlier late, charging.exchanges ++ [exchange] = earlier ++ late ∧ late.length = charging.stalled + 1 ∧
        charging.best.toNat = highest earlier ∧ ∀ other ∈ late, other.count.toNat ≤ highest earlier) ∧
      (charging.exchanges ++ [exchange]).length ≤ stallRounds * charging.best.toNat + (charging.stalled + 1) := by
  obtain ⟨earlier, late, hsplit, hlen, hbest, hlate⟩ := h.stalls
  refine ⟨?_, ⟨earlier, late ++ [exchange], ?_, ?_, hbest, ?_⟩, ?_⟩
  · intro other hother
    rcases List.mem_append.mp hother with hother | hother
    · exact h.short other hother
    · rw [List.mem_singleton.mp hother]
      exact hshort
  · rw [hsplit, List.append_assoc]
  · rw [List.length_append, hlen, List.length_singleton]
  · intro other hother
    rcases List.mem_append.mp hother with hother | hother
    · exact hlate other hother
    · rw [List.mem_singleton.mp hother, ← hbest]
      exact Nat.le_of_not_lt hstall
  · have hfew := h.few
    rw [List.length_append, List.length_singleton]
    omega

/-- How a run of so many rounds may end. -/
def Ends (threshold : UInt32) (limit : ℕ) (result : Except ProbeError Charged) (exchanges : List Exchange) : Prop :=
  match result with
  | .ok (.reached count requests) => exchanges.length = requests ∧ threshold.toNat ≤ count.toNat ∧
      ∃ earlier last, exchanges = earlier ++ [last] ∧ last.count = count ∧
        ∀ exchange ∈ earlier, exchange.count.toNat < threshold.toNat
  | .ok (.saturated count threshold') => threshold' = threshold ∧ count.toNat = highest exchanges ∧
      (∀ exchange ∈ exchanges, exchange.count.toNat < threshold.toNat) ∧
      (exchanges.length = limit ∨ ∃ earlier late, exchanges = earlier ++ late ∧ late.length = stallRounds ∧
        ∀ exchange ∈ late, exchange.count.toNat ≤ highest earlier)
  | .error _ => ∀ exchange ∈ exchanges, exchange.count.toNat < threshold.toNat

variable (network : Network ν) (D : Digests) (rng : EntropySource δ) (fields : RequestFields)

theorem ends_charge (left : ℕ) {sent : ℕ} {charging : Charging ν δ} (h : Climbing fields.requiredClients charging)
    (hsent : sent = charging.exchanges.length + 1) :
    Ends fields.requiredClients (charging.exchanges.length + left) (charge network D rng fields left sent charging).1
        (charge network D rng fields left sent charging).2.exchanges ∧
      (charge network D rng fields left sent charging).2.exchanges.length ≤ charging.exchanges.length + left ∧
      (charge network D rng fields left sent charging).2.exchanges.length ≤
        max 1 (stallRounds * fields.requiredClients.toNat) := by
  induction left generalizing sent charging with
  | zero =>
    exact ⟨⟨rfl, h.best_eq, h.short, .inl rfl⟩, le_rfl, (Nat.le_succ _).trans h.length_lt⟩
  | succ left ih =>
    have hroom := h.length_lt
    have hfewer : charging.exchanges.length ≤ max 1 (stallRounds * fields.requiredClients.toNat) := (Nat.le_succ _).trans hroom
    rw [charge]
    cases hfill : rng.fill charging.entropy 16 with
    | mk drawn entropy =>
      cases drawn with
      | none => exact ⟨h.short, Nat.le_add_right _ _, hfewer⟩
      | some bytes =>
        dsimp only
        generalize charging.session.activate network D rng { fields with clientMachineId := bytes } entropy charging.stream =
          activated
        obtain ⟨spoken, session, entropy'⟩ := activated
        have hmoved : Climbing fields.requiredClients { charging with session, entropy := entropy', stream := spoken.stream } :=
          ⟨h.short, h.patient, h.stalls, h.few⟩
        dsimp only
        cases spoken.result with
        | error error => exact ⟨h.short, Nat.le_add_right _ _, hfewer⟩
        | ok exchange =>
          have hlength : (charging.exchanges ++ [exchange]).length = charging.exchanges.length + 1 := by
            rw [List.length_append, List.length_singleton]
          have hlimit : charging.exchanges.length + (left + 1) = (charging.exchanges ++ [exchange]).length + left := by
            rw [hlength]
            omega
          dsimp only
          split_ifs with hreached hrise hstalled
          · rw [UInt32.le_iff_toNat_le] at hreached
            refine ⟨⟨hlength.trans hsent.symm, hreached, charging.exchanges, exchange, rfl, rfl, h.short⟩, ?_, ?_⟩
            · rw [hlength]
              omega
            · rw [hlength]
              exact hroom
          · rw [UInt32.le_iff_toNat_le, not_le] at hreached
            rw [UInt32.lt_iff_toNat_lt] at hrise
            rw [hlimit]
            exact ih (hmoved.rise hreached hrise) (by rw [hsent, ← hlength])
          · rw [UInt32.le_iff_toNat_le, not_le] at hreached
            rw [UInt32.lt_iff_toNat_lt] at hrise
            obtain ⟨hshort, ⟨earlier, late, hsplit, hlate, hbest, hlow⟩, -⟩ := h.stall hreached hrise
            have hpatient := h.patient
            refine ⟨⟨rfl, ?_, hshort, .inr ⟨earlier, late, hsplit, by omega, hlow⟩⟩, ?_, ?_⟩
            · rw [hsplit, highest_append_of_le hlow]
              exact hbest
            · rw [hlength]
              omega
            · rw [hlength]
              exact hroom
          · rw [UInt32.le_iff_toNat_le, not_le] at hreached
            rw [UInt32.lt_iff_toNat_lt] at hrise
            obtain ⟨hshort, hstalls, hfew⟩ := h.stall hreached hrise
            rw [hlimit]
            exact ih ⟨hshort, Nat.lt_of_not_le hstalled, hstalls, hfew⟩ (by rw [hsent, ← hlength])

/-- Charging any host at all ends within three requests for each client demanded. It ends
as reached with the first count that is enough, and as saturated with the highest count
there was, after the limit or three counts in a row that did not raise it. -/
theorem charge_ends (limit : UInt32) (entropy : δ) (stream : ν) :
    Ends fields.requiredClients limit.toNat (Charge.run network D rng fields limit entropy stream).1
        (Charge.run network D rng fields limit entropy stream).2 ∧
      (Charge.run network D rng fields limit entropy stream).2.length ≤ limit.toNat ∧
      (Charge.run network D rng fields limit entropy stream).2.length ≤
        max 1 (stallRounds * fields.requiredClients.toNat) := by
  rw [Charge.run]
  cases hopened : (Session.open network stream true).result with
  | error error => exact ⟨by simp [Ends], Nat.zero_le _, Nat.zero_le _⟩
  | ok session =>
    have hstart : Climbing fields.requiredClients
        (⟨session, entropy, (Session.open network stream true).stream, 0, 0, []⟩ : Charging ν δ) :=
      ⟨by simp, Nat.zero_lt_succ 2, ⟨[], [], rfl, rfl, rfl, by simp⟩, Nat.zero_le _⟩
    have hends := ends_charge network D rng fields limit.toNat hstart (Nat.zero_add 1).symm
    simp only [List.length_nil, Nat.zero_add] at hends
    exact hends

end

/-! ### Charging the host itself -/

section
variable {ε δ : Type} {catalogue : Catalogue} {endpoint : Endpoint ε} {client : EntropySource δ} {fields : RequestFields}

/-- The gates read a request's application, product and time. -/
theorem refusal_congr (features : Gate.Features) (catalogue : Catalogue) {request request' : Request}
    (happlication : request.application = request'.application) (hcounted : request.counted = request'.counted)
    (htime : request.clientTime = request'.clientTime) (hostTime : Option UInt64) :
    Gate.refusal features catalogue request hostTime = Gate.refusal features catalogue request' hostTime := by
  rw [Gate.refusal, Gate.refusal, Gate.observations, Gate.observations, happlication, hcounted, htime]

/-- The fields of a request that is sent as it is framed, and that no gate of the host
refuses, whatever the time. -/
structure Welcome (endpoint : Endpoint ε) (catalogue : Catalogue) (fields : RequestFields) : Prop where
  short : (encodeUtf16 fields.workstationName).length ≤ 63
  declared : fields.declared = fields.version.toProtocolVersion
  passes : ∀ hostTime, Gate.refusal endpoint.features catalogue (.fromBody fields.body) hostTime = none

theorem Welcome.toBody_eq (h : Welcome endpoint catalogue fields) : fields.toBody = .ok fields.body :=
  if_neg (Nat.not_lt_of_le h.short)

/-- Which machine asks, and for how many, is nothing to the gates. -/
theorem Welcome.asks_as (h : Welcome endpoint catalogue fields) (machine : Guid) (required : UInt32) :
    Welcome endpoint catalogue { fields with clientMachineId := machine, requiredClients := required } where
  short := h.short
  declared := h.declared
  passes hostTime := by
    refine (refusal_congr endpoint.features catalogue ?_ ?_ ?_ hostTime).trans (h.passes hostTime)
    all_goals simp only [Request.fromBody, RequestFields.body]

/-- A welcome request is granted: as the identity of its product, with the count of the
machines held. -/
theorem granted_of_welcome (hworks : endpoint.rng.Works) (hclient : client.Works) {conversation : Conversation ε δ catalogue}
    (hin : InStep conversation.session conversation.stream) (h : Welcome endpoint catalogue fields) :
    ∃ exchange requestIv freshIv salt, ∃ cached : UInt32,
      (conversation.said endpoint client fields).result = .ok exchange ∧
      (conversation.said endpoint client fields).warnings = [] ∧
      Draws client conversation.entropy (requestDraws fields.version requestIv)
        (conversation.next endpoint client fields).entropy ∧
      Draws endpoint.rng conversation.stream.machine.entropy (responseDraws fields.version freshIv salt)
        (conversation.next endpoint client fields).stream.machine.entropy ∧
      Reports conversation.session fields
        ⟨(conversation.host.identity.select fields.application fields.kmsId).2.epid,
          Counting.reported cached fields.requiredClients, conversation.host.intervals,
          (conversation.host.identity.select fields.application fields.kmsId).2.hardwareId⟩ requestIv freshIv exchange ∧
      InStep (conversation.next endpoint client fields).session (conversation.next endpoint client fields).stream ∧
      (conversation.next endpoint client fields).host.identity = conversation.host.identity := by
  obtain ⟨hwarnings, ⟨context, hnext, hdecided⟩, hin'⟩ :=
    Conversation.decided_of_inStep hworks hclient hin h.toBody_eq h.declared
  have hidentity : (conversation.next endpoint client fields).host.identity = conversation.host.identity := by
    rw [hnext, Server.Host.next_identity]
  rcases conversation.host.activate_cases endpoint.features (.fromBody fields.body) context with
    ⟨refused, hrefused, -⟩ | ⟨-, hgrant⟩
  · rw [h.passes] at hrefused
    cases hrefused
  · rw [show conversation.host.decision endpoint.features ⟨.fromBody fields.body, context⟩ = _ from
      congrArg Prod.fst hgrant] at hdecided
    obtain ⟨exchange, requestIv, freshIv, salt, hrequest, hresponse, hresult, hreports⟩ := hdecided
    have happlication : (Request.fromBody fields.body).application = fields.application := WireGuid.toGuid_fromGuid _
    have hcounted : (Request.fromBody fields.body).counted = fields.kmsId := WireGuid.toGuid_fromGuid _
    have hrequired : (Request.fromBody fields.body).requiredClients = fields.requiredClients := rfl
    rw [happlication, hcounted, Server.Host.observed, Counting.ClientCounts.observe_eq, hrequired] at hreports
    dsimp only at hreports
    generalize Policy.saturateU32 _ = cached at hreports
    exact ⟨exchange, requestIv, freshIv, salt, cached, hresult, hwarnings, hrequest, hresponse, hreports, hin', hidentity⟩

/-- What a round is told by the host itself. -/
def Told (fields : RequestFields) (exchange : Exchange) : Prop :=
  ∃ cached, exchange.count = Counting.reported cached fields.requiredClients

/-- The host itself never fails a round. -/
theorem charge_welcome (hworks : endpoint.rng.Works) (hclient : client.Works) (h : Welcome endpoint catalogue fields)
    (left sent : ℕ) {charging : Charging (Loopback ε catalogue) δ} (hin : InStep charging.session charging.stream)
    (htold : ∀ exchange ∈ charging.exchanges, Told fields exchange) :
    (∃ charged, (charge (loopback endpoint) endpoint.digests client fields left sent charging).1 = .ok charged) ∧
      ∀ exchange ∈ (charge (loopback endpoint) endpoint.digests client fields left sent charging).2.exchanges,
        Told fields exchange := by
  induction left generalizing sent charging with
  | zero => exact ⟨⟨_, rfl⟩, htold⟩
  | succ left ih =>
    obtain ⟨bytes, entropy, hfill⟩ := hclient charging.entropy 16
    obtain ⟨exchange, _, _, _, cached, hresult, -, -, -, hreports, hin', -⟩ :=
      @granted_of_welcome ε δ catalogue endpoint client _ hworks hclient ⟨charging.session, entropy, charging.stream⟩ hin
        (h.asks_as bytes fields.requiredClients)
    simp only [Conversation.said, Conversation.next] at hresult hin'
    rw [charge, hfill]
    dsimp only
    generalize charging.session.activate (loopback endpoint) endpoint.digests client { fields with clientMachineId := bytes }
      entropy charging.stream = activated at hresult hin'
    obtain ⟨spoken, session, entropy'⟩ := activated
    dsimp only at hresult hin' ⊢
    rw [hresult]
    have htold' : ∀ other ∈ charging.exchanges ++ [exchange], Told fields other := by
      intro other hother
      rcases List.mem_append.mp hother with hother | hother
      · exact htold other hother
      · rw [List.mem_singleton.mp hother]
        exact ⟨cached, hreports.count⟩
    dsimp only
    split_ifs
    · exact ⟨⟨_, rfl⟩, htold'⟩
    · exact ih _ hin' htold'
    · exact ⟨⟨_, rfl⟩, htold'⟩
    · exact ih _ hin' htold'

/-- Charging the host itself never fails. A demand that it tracks is met by the first
request; one beyond the machines it keeps is never met. -/
theorem charge_own_host (hworks : endpoint.rng.Works) (hclient : client.Works) (h : Welcome endpoint catalogue fields)
    (limit : UInt32) (entropy : δ) (stream : Loopback ε catalogue) :
    ∃ charged exchanges, Charge.run (loopback endpoint) endpoint.digests client fields limit entropy stream =
        (.ok charged, exchanges) ∧
      (fields.requiredClients.toNat ≤ 100 → 0 < limit.toNat → ∃ count, charged = .reached count 1 ∧
        fields.requiredClients.toNat ≤ count.toNat ∧ count.toNat ≤ 2 * max fields.requiredClients.toNat 1) ∧
      (200 < fields.requiredClients.toNat → ∃ count, charged = .saturated count fields.requiredClients ∧ count.toNat ≤ 200) := by
  obtain ⟨session, stream', hopen, -, -, hin, -⟩ := open_loopback endpoint hworks stream true
  obtain ⟨start, hstart⟩ : ∃ start : Charging (Loopback ε catalogue) δ, start = ⟨session, entropy, stream', 0, 0, []⟩ := ⟨_, rfl⟩
  have hclimbing : Climbing fields.requiredClients start := by
    rw [hstart]
    exact ⟨by simp, Nat.zero_lt_succ 2, ⟨[], [], rfl, rfl, rfl, by simp⟩, Nat.zero_le _⟩
  have hlength : start.exchanges.length = 0 := by
    rw [hstart]
    rfl
  obtain ⟨hends, -, -⟩ := ends_charge (loopback endpoint) endpoint.digests client fields limit.toNat hclimbing
    (show 1 = start.exchanges.length + 1 by rw [hlength])
  obtain ⟨⟨charged, hcharged⟩, htold⟩ := @charge_welcome ε δ catalogue endpoint client fields hworks hclient h limit.toNat 1
    start (by rw [hstart]; exact hin) (by rw [hstart]; simp)
  have hrun : Charge.run (loopback endpoint) endpoint.digests client fields limit entropy stream =
      (.ok charged, (charge (loopback endpoint) endpoint.digests client fields limit.toNat 1 start).2.exchanges) := by
    rw [Charge.run, hopen]
    dsimp only
    rw [← hstart, hcharged]
  refine ⟨charged, _, hrun, ?_, ?_⟩
  · intro hsmall hpos
    have henough : ∀ exchange ∈ (charge (loopback endpoint) endpoint.digests client fields limit.toNat 1 start).2.exchanges,
        fields.requiredClients.toNat ≤ exchange.count.toNat ∧
          exchange.count.toNat ≤ 2 * max fields.requiredClients.toNat 1 := by
      intro exchange hexchange
      obtain ⟨cached, hcount⟩ := htold exchange hexchange
      rw [hcount, Counting.reported_toNat, if_pos hsmall]
      omega
    rw [hcharged] at hends
    cases charged with
    | reached count requests =>
      obtain ⟨hrequests, -, earlier, last, hsplit, rfl, hshort⟩ := hends
      have hfirst : earlier = [] := by
        rw [List.eq_nil_iff_forall_not_mem]
        intro exchange hexchange
        have hlow := hshort exchange hexchange
        have hhigh := henough exchange (by rw [hsplit]; exact List.mem_append_left _ hexchange)
        omega
      rw [hsplit, hfirst] at hrequests
      refine ⟨last.count, by rw [← hrequests]; rfl, henough last ?_⟩
      rw [hsplit]
      exact List.mem_append_right _ (List.mem_singleton_self _)
    | saturated count threshold =>
      obtain ⟨-, -, hshort, hlast⟩ := hends
      cases hexchanges : (charge (loopback endpoint) endpoint.digests client fields limit.toNat 1 start).2.exchanges with
      | nil =>
        rw [hexchanges] at hlast
        rcases hlast with hlast | ⟨earlier, late, hsplit, hlate, -⟩
        · rw [hlength, List.length_nil] at hlast
          omega
        · obtain ⟨-, rfl⟩ := List.append_eq_nil_iff.mp hsplit.symm
          cases hlate
      | cons exchange later =>
        have hmem : exchange ∈ (charge (loopback endpoint) endpoint.digests client fields limit.toNat 1 start).2.exchanges := by
          rw [hexchanges]
          exact List.mem_cons_self
        have hlow := hshort exchange hmem
        have hhigh := henough exchange hmem
        omega
  · intro hlarge
    have hbounded : ∀ exchange ∈ (charge (loopback endpoint) endpoint.digests client fields limit.toNat 1 start).2.exchanges,
        exchange.count.toNat ≤ 200 := by
      intro exchange hexchange
      obtain ⟨cached, hcount⟩ := htold exchange hexchange
      rw [hcount, Counting.reported_toNat, if_neg (by omega)]
      exact min_le_right _ _
    rw [hcharged] at hends
    cases charged with
    | reached count requests =>
      obtain ⟨-, henough, earlier, last, hsplit, rfl, -⟩ := hends
      have hlow := hbounded last (by rw [hsplit]; exact List.mem_append_right _ (List.mem_singleton_self _))
      omega
    | saturated count threshold =>
      obtain ⟨rfl, hbest, -, -⟩ := hends
      exact ⟨count, rfl, hbest ▸ highest_le hbounded⟩

end

theorem welcome_sampleFields : Welcome sampleEndpoint Gate.twoKeys sampleFields where
  short := by decide
  declared := rfl
  passes hostTime := by
    have happlication : (Request.fromBody sampleFields.body).application = Gate.windows := WireGuid.toGuid_fromGuid _
    have hcounted : (Request.fromBody sampleFields.body).counted = Server.hostKey := WireGuid.toGuid_fromGuid _
    have hvolume : ((Gate.twoKeys.product Server.hostKey).any fun entry => !entry.kind.isVolume) = false := by decide +kernel
    have hreleased : (Gate.twoKeys.product Server.hostKey).any Product.isPreview = false := by decide +kernel
    have hown : (((Gate.twoKeys.product Server.hostKey).bind Product.application).any fun application =>
        application ≠ Gate.windows) = false := by decide +kernel
    have hlenient : sampleEndpoint.features.refuseClockSkew = false := rfl
    rw [Gate.refusal, happlication, hcounted, hvolume, hreleased, hown, hlenient]
    simp

theorem charge_own_host_sample : ∃ count exchanges,
    Charge.run (loopback sampleEndpoint) sampleEndpoint.digests constantDraws sampleFields 40 () sampleStream =
        (.ok (.reached count 1), exchanges) ∧ 25 ≤ count.toNat ∧ count.toNat ≤ 50 := by
  have hworks : constantDraws.Works := fun _ n => ⟨Vector.replicate n 0x5a, (), rfl⟩
  obtain ⟨charged, exchanges, hrun, hreached, -⟩ :=
    charge_own_host hworks hworks welcome_sampleFields 40 () sampleStream
  obtain ⟨count, rfl, hlow, hhigh⟩ := hreached (by decide) (by decide)
  exact ⟨count, exchanges, hrun, hlow, hhigh⟩

end Kmsrs.Client
