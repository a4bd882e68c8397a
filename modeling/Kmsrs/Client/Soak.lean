import Kmsrs.Client.Charge
import Kmsrs.Client.Names
import Kmsrs.Lib.Crew

/-! A load run. The requests are drawn beforehand; the workers take a ticket and a plan for
each, and count what came of it. A step is what a worker does at once: one atomic update, one
lock, or one call that holds nothing shared. -/

namespace Kmsrs.Client

open Kmsrs.Crypto Kmsrs.Kms Kmsrs.Wire Kmsrs.Policy Draw

/-- What varies from request to request. -/
structure Vary where
  machineId : Bool
  workstationName : Option Flavour

structure Soak where
  fields : RequestFields
  requests : UInt64
  concurrency : ℕ
  reconnect : Bool
  vary : Vary

structure SoakReport where
  completed : ℕ
  failed : ℕ
  firstFailure : Option ProbeError
  highestCount : UInt32
  distinctEpids : ℕ

/-- What the workers share. -/
structure Shared where
  remaining : UInt64
  plans : List RequestFields
  report : SoakReport
  epids : Finset (List Char)

/-- Where a worker stands in its loop. -/
inductive Place where
  | ready
  | ticketed
  | planned (fields : RequestFields)
  | succeeded (exchange : Exchange)
  | counted (exchange : Exchange)
  | failing (error : ProbeError)
  | stopped

structure Worker where
  place : Place
  session : Option Session

/-- One more in a counter of 64 bits. -/
def saturatingSucc (count : ℕ) : ℕ := min (2 ^ 64 - 1) (count + 1)

namespace SoakReport

def recordSuccess (report : SoakReport) (exchange : Exchange) : SoakReport :=
  { report with
    completed := saturatingSucc report.completed
    highestCount := if report.highestCount < exchange.count then exchange.count else report.highestCount }

def recordFailure (report : SoakReport) (error : ProbeError) : SoakReport :=
  { report with
    failed := saturatingSucc report.failed
    firstFailure := report.firstFailure.or (some error) }

end SoakReport

namespace Soak

section
variable {ε : Type} (soak : Soak) (rng : EntropySource ε)

/-- The machine of one request. -/
def planMachine : Draw ε RequestFields :=
  if soak.vary.machineId then do
    let bytes ← once fun entropy => rng.fill entropy 16
    pure { soak.fields with clientMachineId := bytes }
  else pure soak.fields

/-- Its name. -/
def planName (fields : RequestFields) : Draw ε RequestFields :=
  match soak.vary.workstationName with
  | none => pure fields
  | some flavour => do
    let workstationName ← Names.generate rng flavour
    pure { fields with workstationName }

def plan : Draw ε (List RequestFields) :=
  forEach (fun _ => soak.planMachine rng >>= soak.planName rng) (List.range soak.requests.toNat)

end

section
variable {ν δ : Type} (soak : Soak) (network : Network ν) (D : Digests) (rng : EntropySource δ)

/-- A worker's next step; a call finds the socket and the source in any state at all. -/
def worker (shared : Shared) (worker : Worker) (event : ν × δ) : Option (Shared × Worker) :=
  match worker.place with
  | .ready =>
    if shared.remaining = 0 then some (shared, { worker with place := .stopped })
    else some ({ shared with remaining := shared.remaining - 1 }, { worker with place := .ticketed })
  | .ticketed =>
    match shared.plans with
    | [] => some (shared, { worker with place := .stopped })
    | fields :: plans => some ({ shared with plans }, ⟨.planned fields, if soak.reconnect then none else worker.session⟩)
  | .planned fields =>
    match worker.session with
    | none =>
      match (Session.open network event.1 true).result with
      | .error error => some (shared, { worker with place := .failing error })
      | .ok session => some (shared, { worker with session := some session })
    | some session =>
      let (spoken, session, _) := session.activate network D rng fields event.2 event.1
      match spoken.result with
      | .error error => some (shared, ⟨.failing error, none⟩)
      | .ok exchange => some (shared, ⟨.succeeded exchange, some session⟩)
  | .succeeded exchange =>
    some ({ shared with report := shared.report.recordSuccess exchange }, { worker with place := .counted exchange })
  | .counted exchange => some ({ shared with epids := insert exchange.epid shared.epids }, { worker with place := .ready })
  | .failing error =>
    some ({ shared with report := shared.report.recordFailure error }, { worker with place := .ready })
  | .stopped => none

/-- All workers before their first request. -/
def start (plans : List RequestFields) : Crew Shared Worker :=
  ⟨⟨soak.requests, plans, ⟨0, 0, none, 0, 0⟩, ∅⟩, List.replicate (max soak.concurrency 1) ⟨.ready, none⟩⟩

end

/-- What is returned once every worker has stopped. -/
def report (crew : Crew Shared Worker) : SoakReport :=
  { crew.shared.report with distinctEpids := crew.shared.epids.card }

end Soak

/-! ### What a step can do -/

/-- A step, as it was taken. -/
abbrev Taken (ν δ : Type) : Type := Shared × Worker × ν × δ

namespace Taken

variable {ν δ : Type} (network : Network ν) (D : Digests) (rng : EntropySource δ)

/-- What came of a request, if it was decided in this step. -/
def outcome (taken : Taken ν δ) : Option (RequestFields × Except ProbeError Exchange) :=
  match taken.2.1.place, taken.2.1.session with
  | .planned fields, none =>
    match (Session.open network taken.2.2.1 true).result with
    | .error error => some (fields, .error error)
    | .ok _ => none
  | .planned fields, some session =>
    some (fields, (session.activate network D rng fields taken.2.2.2 taken.2.2.1).1.result)
  | _, _ => none

/-- Whether a connection was opened in this step, or tried to. -/
def opens (taken : Taken ν δ) : Bool :=
  match taken.2.1.place with
  | .planned _ => taken.2.1.session.isNone
  | _ => false

end Taken

/-- The steps there are, each with what came of a request in it and whether it opened a
connection. -/
inductive Moves (soak : Soak) (shared : Shared) (session : Option Session) :
    Place → Shared → Worker → Option (RequestFields × Except ProbeError Exchange) → Bool → Prop
  | stop : shared.remaining = 0 → Moves soak shared session .ready shared ⟨.stopped, session⟩ none false
  | ticket : shared.remaining ≠ 0 →
      Moves soak shared session .ready { shared with remaining := shared.remaining - 1 } ⟨.ticketed, session⟩ none false
  | starve : shared.plans = [] → Moves soak shared session .ticketed shared ⟨.stopped, session⟩ none false
  | take {fields : RequestFields} {plans : List RequestFields} : shared.plans = fields :: plans →
      Moves soak shared session .ticketed { shared with plans }
        ⟨.planned fields, if soak.reconnect then none else session⟩ none false
  | unreached {fields : RequestFields} {error : ProbeError} : session = none →
      Moves soak shared session (.planned fields) shared ⟨.failing error, none⟩ (some (fields, .error error)) true
  | opened {fields : RequestFields} (opened : Session) : session = none →
      Moves soak shared session (.planned fields) shared ⟨.planned fields, some opened⟩ none true
  | failed {fields : RequestFields} {error : ProbeError} : session.isSome →
      Moves soak shared session (.planned fields) shared ⟨.failing error, none⟩ (some (fields, .error error)) false
  | answered {fields : RequestFields} {exchange : Exchange} (session' : Session) : session.isSome →
      Moves soak shared session (.planned fields) shared ⟨.succeeded exchange, some session'⟩ (some (fields, .ok exchange)) false
  | succeed {exchange : Exchange} : Moves soak shared session (.succeeded exchange)
      { shared with report := shared.report.recordSuccess exchange } ⟨.counted exchange, session⟩ none false
  | note {exchange : Exchange} : Moves soak shared session (.counted exchange)
      { shared with epids := insert exchange.epid shared.epids } ⟨.ready, session⟩ none false
  | fail {error : ProbeError} : Moves soak shared session (.failing error)
      { shared with report := shared.report.recordFailure error } ⟨.ready, session⟩ none false

section
variable {ν δ : Type} {soak : Soak} {network : Network ν} {D : Digests} {rng : EntropySource δ}

theorem moves_of_worker {shared shared' : Shared} {worker worker' : Worker} {event : ν × δ}
    (h : soak.worker network D rng shared worker event = some (shared', worker')) :
    Moves soak shared worker.session worker.place shared' worker'
      (Taken.outcome network D rng (shared, worker, event)) (Taken.opens (shared, worker, event)) := by
  obtain ⟨place, session⟩ := worker
  obtain ⟨stream, entropy⟩ := event
  unfold Soak.worker at h
  unfold Taken.outcome Taken.opens
  cases place with
  | ready =>
    dsimp only at h ⊢
    split_ifs at h with hnone
    · cases h
      exact .stop hnone
    · cases h
      exact .ticket hnone
  | ticketed =>
    dsimp only at h ⊢
    cases hplans : shared.plans with
    | nil =>
      rw [hplans] at h
      cases h
      exact .starve hplans
    | cons fields plans =>
      rw [hplans] at h
      cases h
      exact .take hplans
  | planned fields =>
    cases session with
    | none =>
      dsimp only at h ⊢
      cases hopen : (Session.open network stream true).result with
      | error error =>
        rw [hopen] at h
        cases h
        exact .unreached rfl
      | ok opened =>
        rw [hopen] at h
        cases h
        exact .opened opened rfl
    | some session =>
      dsimp only at h ⊢
      generalize session.activate network D rng fields entropy stream = activated at h ⊢
      obtain ⟨spoken, session', entropy'⟩ := activated
      dsimp only at h ⊢
      cases hresult : spoken.result with
      | error error =>
        rw [hresult] at h
        cases h
        exact .failed rfl
      | ok exchange =>
        rw [hresult] at h
        cases h
        exact .answered session' rfl
  | succeeded exchange =>
    cases h
    exact .succeed
  | counted exchange =>
    cases h
    exact .note
  | failing error =>
    cases h
    exact .fail
  | stopped => cases h

/-- Only a worker that has stopped has no step left. -/
theorem isSome_worker (shared : Shared) (worker : Worker) (event : ν × δ) :
    (soak.worker network D rng shared worker event).isSome ↔ worker.place ≠ .stopped := by
  unfold Soak.worker
  cases hplace : worker.place with
  | ready => split_ifs <;> simp
  | ticketed => cases shared.plans <;> simp
  | planned fields =>
    cases worker.session with
    | none => cases hopen : (Session.open network event.1 true).result <;> simp
    | some session =>
      dsimp only
      cases (session.activate network D rng fields event.2 event.1).1.result <;> simp
  | succeeded exchange | counted exchange | failing error => simp
  | stopped => simp

end

/-! ### What is under way -/

namespace Worker

/-- The tickets a worker holds, and below the plan, the answers and the failure that it has
not passed on. -/
def tickets : Worker → ℕ
  | ⟨.ticketed, _⟩ => 1
  | _ => 0

def inHand : Worker → Multiset RequestFields
  | ⟨.planned fields, _⟩ => {fields}
  | _ => 0

def unrecorded : Worker → Multiset Exchange
  | ⟨.succeeded exchange, _⟩ => {exchange}
  | _ => 0

def unnoted : Worker → Multiset Exchange
  | ⟨.succeeded exchange, _⟩ | ⟨.counted exchange, _⟩ => {exchange}
  | _ => 0

def unreported : Worker → Multiset ProbeError
  | ⟨.failing error, _⟩ => {error}
  | _ => 0

/-- Whether a worker is without a connection, and whether it has one for the plan it holds. -/
def apart : Worker → ℕ
  | ⟨_, none⟩ => 1
  | ⟨_, some _⟩ => 0

def joined : Worker → ℕ
  | ⟨.planned _, some _⟩ => 1
  | _ => 0

/-- How many steps a worker has left before it is ready again, and one more. -/
def cost : Worker → ℕ
  | ⟨.stopped, _⟩ => 0
  | ⟨.ready, _⟩ => 1
  | ⟨.counted _, _⟩ | ⟨.failing _, _⟩ => 2
  | ⟨.succeeded _, _⟩ => 3
  | ⟨.planned _, some _⟩ => 4
  | ⟨.planned _, none⟩ => 5
  | ⟨.ticketed, _⟩ => 6

end Worker

def successes (decided : List (RequestFields × Except ProbeError Exchange)) : List Exchange :=
  decided.filterMap fun request => request.2.toOption

def failures (decided : List (RequestFields × Except ProbeError Exchange)) : List ProbeError :=
  decided.filterMap fun request => match request.2 with
    | .error error => some error
    | .ok _ => none

theorem length_successes_add (decided : List (RequestFields × Except ProbeError Exchange)) :
    (successes decided).length + (failures decided).length = decided.length := by
  induction decided with
  | nil => rfl
  | cons request decided ih =>
    obtain ⟨fields, _ | exchange⟩ := request
    · simp only [successes, failures, List.filterMap_cons, Except.toOption, List.length_cons] at ih ⊢
      omega
    · simp only [successes, failures, List.filterMap_cons, Except.toOption, List.length_cons] at ih ⊢
      omega

section
variable {soak : Soak} {plan : List RequestFields} {decided : List (RequestFields × Except ProbeError Exchange)}
  {crew : Crew Shared Worker} {worker : ℕ} {place : Place} {session : Option Session} {shared' : Shared} {worker' : Worker}
  {outcome : Option (RequestFields × Except ProbeError Exchange)} {opened : Bool}

open Crew

theorem toNat_pred {count : UInt64} (h : count ≠ 0) : (count - 1).toNat + 1 = count.toNat := by
  have hpos : 1 ≤ count.toNat := Nat.one_le_iff_ne_zero.mpr fun hzero => h (UInt64.toNat_inj.mp hzero)
  rw [UInt64.toNat_sub_of_le count 1 (UInt64.le_iff_toNat_le.mpr hpos)]
  exact Nat.sub_add_cancel hpos

/-- For each ticket, left or taken, there is a plan. -/
def Ticketed (crew : Crew Shared Worker) : Prop :=
  crew.shared.remaining.toNat + held Worker.tickets crew = crew.shared.plans.length

theorem Ticketed.step (h : Ticketed crew) (hplace : crew.places[worker]? = some ⟨place, session⟩)
    (hmoves : Moves soak crew.shared session place shared' worker' outcome opened) : Ticketed (crew.move worker shared' worker' []) := by
  have hmove := held_move_nil Worker.tickets hplace shared' worker'
  rw [Ticketed] at h ⊢
  rw [shared_move]
  cases hmoves with
  | ticket hsome =>
    have hless := toNat_pred hsome
    simp only [Worker.tickets] at hmove ⊢
    omega
  | take htake =>
    simp only [Worker.tickets] at hmove ⊢
    rw [htake, List.length_cons] at h
    omega
  | starve hnone =>
    simp only [Worker.tickets] at hmove ⊢
    have := @le_held _ _ crew worker _ Worker.tickets hplace
    rw [hnone] at h ⊢
    simp only [Worker.tickets, List.length_nil] at *
    omega
  | _ =>
    simp only [Worker.tickets] at hmove ⊢
    omega

/-- Every plan is decided, in a worker's hand, or still to be taken. -/
def Handed (plan : List RequestFields) (decided : List (RequestFields × Except ProbeError Exchange))
    (crew : Crew Shared Worker) : Prop :=
  (decided.map Prod.fst : Multiset RequestFields) + held Worker.inHand crew + crew.shared.plans = plan

theorem Handed.step (h : Handed plan decided crew) (hplace : crew.places[worker]? = some ⟨place, session⟩)
    (hmoves : Moves soak crew.shared session place shared' worker' outcome opened) :
    Handed plan (decided ++ outcome.toList) (crew.move worker shared' worker' []) := by
  have hmove := held_move_nil Worker.inHand hplace shared' worker'
  rw [Handed] at h ⊢
  rw [shared_move, List.map_append, ← Multiset.coe_add, ← h]
  cases hmoves with
  | take htake =>
    simp only [Worker.inHand, add_zero] at hmove
    rw [hmove, htake, ← Multiset.cons_coe, ← Multiset.singleton_add]
    simp [add_assoc]
  | unreached _ | failed _ | answered _ _ =>
    simp only [Worker.inHand, add_zero] at hmove
    rw [← hmove]
    simp only [Option.toList_some, List.map_cons, List.map_nil, Multiset.coe_singleton]
    abel
  | _ =>
    simp only [Worker.inHand, add_zero, add_left_inj] at hmove
    rw [hmove]
    simp

/-- What the report counts, the worker that holds it has passed on. -/
def Recorded (decided : List (RequestFields × Except ProbeError Exchange)) (crew : Crew Shared Worker) : Prop :=
  ∃ recorded : Multiset Exchange, recorded + held Worker.unrecorded crew = successes decided ∧
    crew.shared.report.completed = recorded.card ∧
    crew.shared.report.highestCount.toNat = (recorded.map fun exchange => exchange.count.toNat).sup

theorem successes_append (decided later : List (RequestFields × Except ProbeError Exchange)) :
    successes (decided ++ later) = successes decided ++ successes later := List.filterMap_append

theorem failures_append (decided later : List (RequestFields × Except ProbeError Exchange)) :
    failures (decided ++ later) = failures decided ++ failures later := List.filterMap_append

theorem Recorded.step (h : Recorded decided crew) (hfew : decided.length < 2 ^ 64) (hplace : crew.places[worker]? = some ⟨place, session⟩)
    (hmoves : Moves soak crew.shared session place shared' worker' outcome opened) :
    Recorded (decided ++ outcome.toList) (crew.move worker shared' worker' []) := by
  have hmove := held_move_nil Worker.unrecorded hplace shared' worker'
  obtain ⟨recorded, hrecorded, hcompleted, hhighest⟩ := h
  rw [Recorded, shared_move, successes_append, ← Multiset.coe_add, ← hrecorded]
  cases hmoves with
  | @answered _ exchange =>
    simp only [Worker.unrecorded, add_zero] at hmove
    refine ⟨recorded, ?_, hcompleted, hhighest⟩
    rw [hmove, add_assoc]
    rfl
  | @succeed exchange =>
    simp only [Worker.unrecorded, add_zero] at hmove
    have hcard := length_successes_add decided
    have htotal := congrArg Multiset.card hrecorded
    rw [← hmove] at htotal
    simp only [Multiset.card_add, Multiset.card_singleton, Multiset.coe_card] at htotal
    refine ⟨recorded + {exchange}, ?_, ?_, ?_⟩
    · rw [← hmove, Option.toList_none, successes, List.filterMap_nil, Multiset.coe_nil, add_zero]
      abel
    · change saturatingSucc crew.shared.report.completed = _
      rw [saturatingSucc, hcompleted, Multiset.card_add, Multiset.card_singleton]
      omega
    · rw [SoakReport.recordSuccess, Multiset.map_add, Multiset.sup_add, Multiset.map_singleton, Multiset.sup_singleton, ← hhighest]
      split_ifs with hrise
      · rw [UInt32.lt_iff_toNat_lt] at hrise
        exact (sup_eq_right.mpr hrise.le).symm
      · rw [UInt32.lt_iff_toNat_lt, not_lt] at hrise
        exact (sup_eq_left.mpr hrise).symm
  | _ =>
    simp only [Worker.unrecorded, add_zero] at hmove
    refine ⟨recorded, ?_, hcompleted, hhighest⟩
    rw [hmove]
    simp [successes, Except.toOption]

/-- The ePIDs that are noted are those of the answers passed on. -/
def Noted (decided : List (RequestFields × Except ProbeError Exchange)) (crew : Crew Shared Worker) : Prop :=
  ∃ noted : Multiset Exchange, noted + held Worker.unnoted crew = successes decided ∧
    ∀ epid, epid ∈ crew.shared.epids ↔ ∃ exchange ∈ noted, exchange.epid = epid

theorem Noted.step (h : Noted decided crew) (hplace : crew.places[worker]? = some ⟨place, session⟩)
    (hmoves : Moves soak crew.shared session place shared' worker' outcome opened) :
    Noted (decided ++ outcome.toList) (crew.move worker shared' worker' []) := by
  have hmove := held_move_nil Worker.unnoted hplace shared' worker'
  obtain ⟨noted, hnoted, hepids⟩ := h
  rw [Noted, shared_move, successes_append, ← Multiset.coe_add, ← hnoted]
  cases hmoves with
  | @answered _ exchange =>
    simp only [Worker.unnoted, add_zero] at hmove
    refine ⟨noted, ?_, hepids⟩
    rw [hmove, add_assoc]
    rfl
  | @note exchange =>
    simp only [Worker.unnoted, add_zero] at hmove
    refine ⟨noted + {exchange}, ?_, fun epid => ?_⟩
    · rw [← hmove, Option.toList_none, successes, List.filterMap_nil, Multiset.coe_nil, add_zero]
      abel
    · rw [Finset.mem_insert, hepids]
      simp only [Multiset.mem_add, Multiset.mem_singleton]
      constructor
      · rintro (rfl | ⟨other, hother, rfl⟩)
        · exact ⟨exchange, .inr rfl, rfl⟩
        · exact ⟨other, .inl hother, rfl⟩
      · rintro ⟨other, hother | rfl, rfl⟩
        · exact .inr ⟨other, hother, rfl⟩
        · exact .inl rfl
  | _ =>
    simp only [Worker.unnoted, add_zero, add_left_inj] at hmove
    refine ⟨noted, ?_, hepids⟩
    rw [hmove]
    simp [successes, Except.toOption]

/-- The failures that are reported, the first one first. -/
def Reported (decided : List (RequestFields × Except ProbeError Exchange)) (crew : Crew Shared Worker) : Prop :=
  ∃ reported : List ProbeError, (reported : Multiset ProbeError) + held Worker.unreported crew = failures decided ∧
    crew.shared.report.failed = reported.length ∧ crew.shared.report.firstFailure = reported.head?

theorem Reported.step (h : Reported decided crew) (hfew : decided.length < 2 ^ 64) (hplace : crew.places[worker]? = some ⟨place, session⟩)
    (hmoves : Moves soak crew.shared session place shared' worker' outcome opened) :
    Reported (decided ++ outcome.toList) (crew.move worker shared' worker' []) := by
  have hmove := held_move_nil Worker.unreported hplace shared' worker'
  obtain ⟨reported, hreported, hfailed, hfirst⟩ := h
  rw [Reported, shared_move, failures_append, ← Multiset.coe_add, ← hreported]
  cases hmoves with
  | @unreached _ error | @failed _ error =>
    simp only [Worker.unreported, add_zero] at hmove
    refine ⟨reported, ?_, hfailed, hfirst⟩
    rw [hmove, add_assoc]
    rfl
  | @fail error =>
    simp only [Worker.unreported, add_zero] at hmove
    have hcard := length_successes_add decided
    have htotal := congrArg Multiset.card hreported
    rw [← hmove] at htotal
    simp only [Multiset.card_add, Multiset.card_singleton, Multiset.coe_card] at htotal
    refine ⟨reported ++ [error], ?_, ?_, ?_⟩
    · rw [← hmove, Option.toList_none, failures, List.filterMap_nil, Multiset.coe_nil, add_zero, ← Multiset.coe_add,
        Multiset.coe_singleton]
      abel
    · change saturatingSucc crew.shared.report.failed = _
      rw [saturatingSucc, hfailed, List.length_append, List.length_singleton]
      omega
    · change crew.shared.report.firstFailure.or (some error) = _
      rw [hfirst, List.head?_append]
      rfl
  | _ =>
    simp only [Worker.unreported, add_zero] at hmove
    refine ⟨reported, ?_, hfailed, hfirst⟩
    rw [hmove]
    simp [failures]

/-- Connections are opened for each request, or by each worker at first and after a failure. -/
def Connected (soak : Soak) (opens : ℕ) (decided : List (RequestFields × Except ProbeError Exchange))
    (crew : Crew Shared Worker) : Prop :=
  if soak.reconnect then opens = decided.length + held Worker.joined crew
  else opens + held Worker.apart crew = max soak.concurrency 1 + (failures decided).length

theorem Connected.step {opens : ℕ} (h : Connected soak opens decided crew) (hplace : crew.places[worker]? = some ⟨place, session⟩)
    (hmoves : Moves soak crew.shared session place shared' worker' outcome opened) :
    Connected soak (opens + opened.toNat) (decided ++ outcome.toList) (crew.move worker shared' worker' []) := by
  have hjoined := held_move_nil Worker.joined hplace shared' worker'
  have hapart := held_move_nil Worker.apart hplace shared' worker'
  rw [Connected, failures_append, List.length_append, List.length_append]
  rw [Connected] at h
  cases hkeep : soak.reconnect with
  | true =>
    rw [hkeep, if_pos rfl] at h
    rw [if_pos rfl]
    cases hmoves with
    | take _ =>
      rw [hkeep] at hjoined ⊢
      simp only [Worker.joined, if_true, Option.toList_none, List.length_nil, Bool.toNat_false] at hjoined ⊢
      omega
    | unreached hnone | opened _ hnone =>
      rw [hnone] at hjoined
      simp only [Worker.joined, Option.toList_none, Option.toList_some, List.length_nil, List.length_singleton,
        Bool.toNat_true] at hjoined ⊢
      omega
    | failed hsome | answered _ hsome =>
      obtain ⟨held, rfl⟩ := Option.isSome_iff_exists.mp hsome
      simp only [Worker.joined, Option.toList_some, List.length_singleton, Bool.toNat_false] at hjoined ⊢
      omega
    | _ =>
      simp only [Worker.joined, Option.toList_none, List.length_nil, Bool.toNat_false] at hjoined ⊢
      omega
  | false =>
    rw [hkeep, if_neg Bool.false_ne_true] at h
    rw [if_neg Bool.false_ne_true]
    cases hmoves with
    | take _ =>
      rw [hkeep] at hapart ⊢
      cases session <;>
        simp only [Worker.apart, Bool.false_eq_true, if_false, Option.toList_none, failures, List.filterMap_nil, List.length_nil,
          Bool.toNat_false] at hapart h ⊢ <;>
        omega
    | unreached hnone | opened _ hnone =>
      rw [hnone] at hapart
      simp only [Worker.apart, Option.toList_none, Option.toList_some, failures, List.filterMap_nil, List.filterMap_cons,
        List.length_nil, List.length_singleton, Bool.toNat_true] at hapart h ⊢
      omega
    | failed hsome | answered _ hsome =>
      obtain ⟨held, rfl⟩ := Option.isSome_iff_exists.mp hsome
      simp only [Worker.apart, Option.toList_some, failures, List.filterMap_nil, List.filterMap_cons, List.length_nil,
        List.length_singleton, Bool.toNat_false] at hapart h ⊢
      omega
    | _ =>
      cases session <;>
        simp only [Worker.apart, Option.toList_none, failures, List.filterMap_nil, List.length_nil, Bool.toNat_false]
          at hapart h ⊢ <;>
        omega

end

/-! ### A whole run -/

section
variable {ν δ : Type} {soak : Soak} {network : Network ν} {D : Digests} {rng : EntropySource δ}
  {plan : List RequestFields} {past : List (Taken ν δ)} {crew : Crew Shared Worker}

open Crew

/-- What was decided in a run, in order. -/
def decisions (network : Network ν) (D : Digests) (rng : EntropySource δ) (past : List (Taken ν δ)) :
    List (RequestFields × Except ProbeError Exchange) := past.filterMap (Taken.outcome network D rng)

/-- Everything that holds of a run so far. -/
structure Settling (soak : Soak) (plan : List RequestFields) (decided : List (RequestFields × Except ProbeError Exchange))
    (opens : ℕ) (crew : Crew Shared Worker) : Prop where
  ticketed : Ticketed crew
  sent : Handed plan decided crew
  recorded : Recorded decided crew
  noted : Noted decided crew
  reported : Reported decided crew
  connected : Connected soak opens decided crew
  stopped : ∀ worker ∈ crew.places, worker.place = .stopped → crew.shared.remaining = 0
  size : crew.places.length = max soak.concurrency 1

theorem Settling.length_le {decided : List (RequestFields × Except ProbeError Exchange)} {opens : ℕ}
    (h : Settling soak plan decided opens crew) : decided.length ≤ plan.length := by
  have hsent := congrArg Multiset.card h.sent
  simp only [Multiset.card_add, Multiset.coe_card, List.length_map] at hsent
  omega

/-- Tickets do not come back. -/
theorem Moves.remaining_eq_zero {shared shared' : Shared} {session : Option Session} {place : Place} {worker' : Worker}
    {outcome : Option (RequestFields × Except ProbeError Exchange)} {opened : Bool}
    (h : Moves soak shared session place shared' worker' outcome opened) (hnone : shared.remaining = 0) :
    shared'.remaining = 0 := by
  cases h with
  | ticket hsome => exact absurd hnone hsome
  | _ => exact hnone

/-- No worker starves: a ticket in hand is for a plan that is left. -/
theorem Ticketed.plans_ne_nil {crew : Crew Shared Worker} (h : Ticketed crew) {worker : ℕ} {session : Option Session}
    (hplace : crew.places[worker]? = some ⟨.ticketed, session⟩) : crew.shared.plans ≠ [] := by
  have hheld := @le_held _ _ crew worker _ Worker.tickets hplace
  rw [Ticketed] at h
  rintro hnone
  rw [hnone] at h
  simp only [Worker.tickets, List.length_nil] at hheld h
  omega

theorem Settling.step {decided : List (RequestFields × Except ProbeError Exchange)} {opens : ℕ}
    (h : Settling soak plan decided opens crew) (hbound : plan.length < 2 ^ 64) {worker : ℕ} {place : Place}
    {session : Option Session} (hplace : crew.places[worker]? = some ⟨place, session⟩) {shared' : Shared} {worker' : Worker}
    {outcome : Option (RequestFields × Except ProbeError Exchange)} {opened : Bool}
    (hmoves : Moves soak crew.shared session place shared' worker' outcome opened) :
    Settling soak plan (decided ++ outcome.toList) (opens + opened.toNat) (crew.move worker shared' worker' []) where
  ticketed := h.ticketed.step hplace hmoves
  sent := h.sent.step hplace hmoves
  recorded := h.recorded.step (h.length_le.trans_lt hbound) hplace hmoves
  noted := h.noted.step hplace hmoves
  reported := h.reported.step (h.length_le.trans_lt hbound) hplace hmoves
  connected := h.connected.step hplace hmoves
  stopped := by
    intro other hmem hother
    rw [shared_move]
    rcases mem_move hmem with hold | rfl | hnone
    · exact hmoves.remaining_eq_zero (h.stopped other hold hother)
    · cases hmoves with
      | stop hnone => exact hnone
      | starve hnone => exact absurd hnone (h.ticketed.plans_ne_nil hplace)
      | _ => cases hother
    · cases hnone
  size := length_move_nil.trans h.size

theorem settling_start (hplan : plan.length = soak.requests.toNat) : Settling soak plan [] 0 (soak.start plan) := by
  have hready : ∀ worker ∈ (soak.start plan).places, worker = ⟨.ready, none⟩ := fun _ hmem => List.eq_of_mem_replicate hmem
  have hnone {M : Type} [AddCommMonoid M] {weight : Worker → M} (h : weight ⟨.ready, none⟩ = 0) :
      held weight (soak.start plan) = 0 := held_eq_zero fun worker hmem => by rw [hready worker hmem, h]
  refine ⟨?_, ?_, ⟨0, ?_, rfl, rfl⟩, ⟨0, ?_, by simp [Soak.start]⟩, ⟨[], ?_, rfl, rfl⟩, ?_, ?_, List.length_replicate⟩
  · rw [Ticketed, hnone rfl]
    exact hplan.symm
  · rw [Handed, hnone rfl]
    simp [Soak.start]
  · rw [hnone rfl]
    rfl
  · rw [hnone rfl]
    rfl
  · rw [hnone rfl]
    rfl
  · rw [Connected]
    split_ifs
    · rw [hnone rfl]
      rfl
    · simp [held, Soak.start, Worker.apart, failures]
  · intro worker hmem hstopped
    rw [hready worker hmem] at hstopped
    cases hstopped

theorem settling_of_reaches (hplan : plan.length = soak.requests.toNat)
    (h : Reaches (alone (soak.worker network D rng)) (soak.start plan) past crew) :
    Settling soak plan (decisions network D rng past) (past.countP Taken.opens) crew := by
  have hbound : plan.length < 2 ^ 64 := by
    rw [hplan]
    exact soak.requests.toNat_lt
  refine h.invariant (fun past crew => Settling soak plan (decisions network D rng past) (past.countP Taken.opens) crew)
    (settling_start hplan) fun past crew worker place event shared' worker' hired hsettling hplace hprogram => ?_
  obtain ⟨hworker, rfl⟩ := alone_eq_some hprogram
  have hmoves := moves_of_worker hworker
  have hdecided : decisions network D rng (past ++ [(crew.shared, place, event)]) =
      decisions network D rng past ++ (Taken.outcome network D rng (crew.shared, place, event)).toList := by
    rw [decisions, List.filterMap_append, List.filterMap_cons, List.filterMap_nil]
    cases Taken.outcome network D rng (crew.shared, place, event) <;> rfl
  have hopens : (past ++ [(crew.shared, place, event)]).countP Taken.opens =
      past.countP Taken.opens + (Taken.opens (crew.shared, place, event)).toNat := by
    rw [List.countP_append, List.countP_singleton]
    cases Taken.opens (crew.shared, place, event) <;> rfl
  rw [hdecided, hopens]
  exact hsettling.step hbound hplace hmoves

/-- What a run costs at most: six steps for each request, and one for each worker to stop. -/
theorem length_of_reaches (h : Reaches (alone (soak.worker network D rng)) (soak.start plan) past crew) :
    past.length ≤ 6 * soak.requests.toNat + max soak.concurrency 1 := by
  have hlength := @Reaches.length_le _ _ _ _ _ _ _ (fun _ => True) (fun shared => 6 * shared.remaining.toNat) Worker.cost
    (fun _ _ _ _ _ _ _ _ => trivial) ?_ trivial h
  · have hstart : held Worker.cost (soak.start plan) = max soak.concurrency 1 := by simp [held, Soak.start, Worker.cost]
    rw [hstart] at hlength
    simp only [Soak.start] at hlength
    omega
  · intro shared worker event shared' worker' hired _ hprogram
    obtain ⟨hworker, rfl⟩ := alone_eq_some hprogram
    obtain ⟨place, session⟩ := worker
    have hmoves := moves_of_worker hworker
    generalize Taken.outcome network D rng (shared, ⟨place, session⟩, event) = outcome at hmoves
    generalize Taken.opens (shared, (⟨place, session⟩ : Worker), event) = opened at hmoves
    dsimp only at hmoves
    rw [List.map_nil, List.sum_nil, add_zero]
    cases hmoves with
    | ticket hsome =>
      have hless := toNat_pred hsome
      simp only [Worker.cost]
      omega
    | take _ => cases session <;> cases soak.reconnect <;> simp [Worker.cost]
    | unreached hnone | opened _ hnone =>
      rw [hnone]
      simp [Worker.cost]
    | failed hsome | answered _ hsome =>
      obtain ⟨held, rfl⟩ := Option.isSome_iff_exists.mp hsome
      simp [Worker.cost]
    | _ => simp [Worker.cost]

theorem highest_eq_sup (exchanges : List Exchange) :
    ((exchanges : Multiset Exchange).map fun exchange => exchange.count.toNat).sup = highest exchanges := by
  induction exchanges using List.reverseRecOn with
  | nil => rfl
  | append_singleton exchanges exchange ih =>
    rw [highest_append, ← ih, ← Multiset.coe_add, Multiset.map_add, Multiset.sup_add, Multiset.coe_singleton,
      Multiset.map_singleton, Multiset.sup_singleton]

/-- What the report says once every worker has stopped. -/
structure Settled (soak : Soak) (plan : List RequestFields) (decided : List (RequestFields × Except ProbeError Exchange))
    (report : SoakReport) : Prop where
  sent : (decided.map Prod.fst).Perm plan
  completed : report.completed = (successes decided).length
  failed : report.failed = (failures decided).length
  total : report.completed + report.failed = soak.requests.toNat
  highest : report.highestCount.toNat = highest (successes decided)
  distinct : report.distinctEpids = ((successes decided).map Exchange.epid).toFinset.card
  first : report.firstFailure = none ↔ failures decided = []
  cause : ∀ error ∈ report.firstFailure, error ∈ failures decided

theorem Settling.settled {decided : List (RequestFields × Except ProbeError Exchange)} {opens : ℕ}
    (h : Settling soak plan decided opens crew) (hplan : plan.length = soak.requests.toNat)
    (hstopped : ∀ worker ∈ crew.places, worker.place = .stopped) : Settled soak plan decided (Soak.report crew) := by
  have hnone {M : Type} [AddCommMonoid M] {weight : Worker → M} (h : ∀ session, weight ⟨.stopped, session⟩ = 0) :
      held weight crew = 0 := held_eq_zero fun worker hmem => by
    rw [show worker = ⟨.stopped, worker.session⟩ by rw [← hstopped worker hmem]]
    exact h _
  have hremaining : crew.shared.remaining = 0 := by
    obtain ⟨worker, hmem⟩ := List.exists_mem_of_length_pos (h.size.symm ▸ lt_max_of_lt_right Nat.one_pos)
    exact h.stopped worker hmem (hstopped worker hmem)
  have hplans : crew.shared.plans = [] := by
    have hticketed := h.ticketed
    rw [Ticketed, hnone fun _ => rfl, hremaining] at hticketed
    exact List.eq_nil_of_length_eq_zero hticketed.symm
  have hsent : (decided.map Prod.fst).Perm plan := by
    have hsent := h.sent
    rw [Handed, hnone fun _ => rfl, hplans, add_zero, Multiset.coe_nil, add_zero] at hsent
    exact Multiset.coe_eq_coe.mp hsent
  obtain ⟨recorded, hrecorded, hcompleted, hhighest⟩ := h.recorded
  obtain ⟨noted, hnoted, hepids⟩ := h.noted
  obtain ⟨reported, hreported, hfailed, hfirst⟩ := h.reported
  rw [hnone fun _ => rfl, add_zero] at hrecorded hnoted hreported
  rw [hrecorded] at hcompleted hhighest
  have hreports : reported.Perm (failures decided) := Multiset.coe_eq_coe.mp hreported
  rw [hreports.length_eq] at hfailed
  refine ⟨hsent, hcompleted, hfailed, ?_, hhighest.trans (highest_eq_sup _), ?_, ?_, ?_⟩
  · rw [← hplan, ← hsent.length_eq, List.length_map, ← length_successes_add, ← hfailed]
    exact congrArg (· + crew.shared.report.failed) hcompleted
  · refine congrArg Finset.card (Finset.ext fun epid => ?_)
    rw [hepids, hnoted, List.mem_toFinset, List.mem_map]
    simp only [Multiset.mem_coe]
  · rw [Soak.report]
    dsimp only
    rw [hfirst, List.head?_eq_none_iff]
    exact ⟨fun h => by rw [h] at hreports; exact hreports.nil_eq.symm, fun h => by rw [h] at hreports; exact hreports.eq_nil⟩
  · intro error herror
    rw [Soak.report] at herror
    dsimp only at herror
    rw [hfirst] at herror
    exact hreports.mem_iff.mp (List.mem_of_mem_head? herror)

end

/-! ### The plan -/

section
variable {ε : Type} {source : EntropySource ε} {soak : Soak} {plan : List RequestFields}

/-- A planned request differs from the others in its machine and its name only, and in each
only where that varies; it is sent, and read back as it was planned. -/
structure Planned (soak : Soak) (fields : RequestFields) : Prop where
  same : fields =
    { soak.fields with clientMachineId := fields.clientMachineId, workstationName := fields.workstationName }
  machine : soak.vary.machineId = false → fields.clientMachineId = soak.fields.clientMachineId
  name : soak.vary.workstationName = none → fields.workstationName = soak.fields.workstationName
  named : ∀ flavour ∈ soak.vary.workstationName, Names.Named flavour fields.workstationName ∧
    ∃ body, fields.toBody = .ok body ∧ SameFields fields (.fromBody body)

theorem ensures_planMachine (hworks : source.Works) (soak : Soak) : Ensures (soak.planMachine source) fun fields =>
    fields = { soak.fields with clientMachineId := fields.clientMachineId } ∧
      (soak.vary.machineId = false → fields.clientMachineId = soak.fields.clientMachineId) := by
  rw [Soak.planMachine]
  split_ifs with hvary
  · have hfill : Ensures (once fun entropy => source.fill entropy 16) fun _ => True := Ensures.once fun entropy => hworks entropy 16
    exact hfill.bind fun bytes _ => .pure ⟨rfl, fun h => absurd (hvary.symm.trans h) (by simp)⟩
  · exact .pure ⟨rfl, fun _ => rfl⟩

theorem ensures_planName (hworks : source.Works) (soak : Soak) (fields : RequestFields) :
    Ensures (soak.planName source fields) fun named => named = { fields with workstationName := named.workstationName } ∧
      (soak.vary.workstationName = none → named.workstationName = fields.workstationName) ∧
        ∀ flavour ∈ soak.vary.workstationName, Names.Named flavour named.workstationName := by
  rw [Soak.planName]
  cases hflavour : soak.vary.workstationName with
  | none => exact .pure ⟨rfl, fun _ => rfl, by simp⟩
  | some flavour =>
    refine (Names.ensures_generate hworks flavour).bind fun name hname => .pure ⟨rfl, by simp, ?_⟩
    intro other hother
    rw [← Option.some.inj hother]
    exact hname

theorem ensures_plan (hworks : source.Works) (soak : Soak) :
    Ensures (soak.plan source) fun plan => plan.length = soak.requests.toNat ∧ ∀ fields ∈ plan, Planned soak fields := by
  have hone : Ensures (soak.planMachine source >>= soak.planName source) (Planned soak) := by
    refine (ensures_planMachine hworks soak).bind fun fields ⟨hfields, hmachine⟩ =>
      (ensures_planName hworks soak fields).mono fun named ⟨hnamed, hname, hnames⟩ => ?_
    rw [hnamed, hfields]
    refine ⟨rfl, hmachine, fun h => ?_, fun flavour hflavour => ⟨hnames flavour hflavour, ?_⟩⟩
    · rw [hname h, hfields]
    · exact Names.sameFields_of_named (hnames flavour hflavour) _
  refine (Ensures.forEach fun _ _ => hone).mono fun plan hplan => ⟨?_, fun fields hfields => ?_⟩
  · rw [← hplan.length_eq, List.length_range]
  · obtain ⟨i, hi, rfl⟩ := List.mem_iff_getElem.mp hfields
    exact (List.forall₂_iff_get.mp hplan).2 i (by rw [hplan.length_eq]; exact hi) hi

theorem ends_plan (hworks : source.Works) (hfair : FairSource source) (soak : Soak) : Draw.Ends (soak.plan source) := by
  refine Draw.Ends.forEach fun _ _ => Draw.Ends.bind ?_ fun fields => ?_
  · rw [Soak.planMachine]
    split_ifs
    · exact (Draw.Ends.once _).bind fun _ => .pure _
    · exact .pure _
  · rw [Soak.planName]
    cases soak.vary.workstationName with
    | none => exact .pure _
    | some flavour => exact (Names.ends_generate hworks hfair flavour).bind fun _ => .pure _

theorem length_plan {rounds : ℕ} {entropy : ε} (h : (soak.plan source rounds entropy).1 = .drawn plan) :
    plan.length = soak.requests.toNat := by
  rw [← (forall₂_of_forEach h).length_eq, List.length_range]

end

/-! ### What a run comes to -/

/-- Two requests for two workers. -/
def sampleSoak : Soak := ⟨sampleFields, 2, 2, false, ⟨false, none⟩⟩

/-- Nobody listens. -/
def unreachable : Network Unit := ⟨fun _ => (false, ()), fun _ _ => (false, ()), fun _ _ => (none, ())⟩

def sampleStart : Crew Shared Worker := sampleSoak.start [sampleFields, sampleFields]

/-- The workers take turns. -/
theorem sample_stops : ∃ past crew,
    Crew.Reaches (Crew.alone (sampleSoak.worker unreachable sampleEndpoint.digests constantDraws)) sampleStart past crew ∧
      ∀ worker ∈ crew.places, worker.place = .stopped := by
  have hstart : Crew.Reaches (Crew.alone (sampleSoak.worker unreachable sampleEndpoint.digests constantDraws)) sampleStart []
      sampleStart := .nil
  have htickets := (hstart.snoc 0 ((), ()) rfl rfl).snoc 1 ((), ()) rfl rfl
  have hplans := (htickets.snoc 0 ((), ()) rfl rfl).snoc 1 ((), ()) rfl rfl
  have hcalls := (hplans.snoc 0 ((), ()) rfl rfl).snoc 1 ((), ()) rfl rfl
  have hfailed := (hcalls.snoc 0 ((), ()) rfl rfl).snoc 1 ((), ()) rfl rfl
  have hstopped := (hfailed.snoc 0 ((), ()) rfl rfl).snoc 1 ((), ()) rfl rfl
  exact ⟨_, _, hstopped, List.forall_mem_cons.mpr ⟨rfl, List.forall_mem_cons.mpr ⟨rfl, List.forall_mem_nil _⟩⟩⟩

theorem sample_plan : (sampleSoak.plan script 1 []).1 = .drawn [sampleFields, sampleFields] := rfl

section
variable {ν δ ε : Type} {soak : Soak} {network : Network ν} {D : Digests} {rng : EntropySource δ} {source : EntropySource ε}
  {plan : List RequestFields} {rounds : ℕ} {entropy : ε} {past : List (Taken ν δ)} {crew : Crew Shared Worker}

open Crew

/-- The plan of a run: it can always be drawn, one request for each ticket, and a request with a
name of its own is always sent and read back whole. -/
theorem plan_drawn (soak : Soak) (hworks : source.Works) (hfair : FairSource source) (entropy : ε) :
    ∃ rounds plan, (soak.plan source rounds entropy).1 = .drawn plan ∧ plan.length = soak.requests.toNat ∧
      ∀ fields ∈ plan, Planned soak fields := by
  obtain ⟨rounds, plan, hplan⟩ := exists_drawn (ensures_plan hworks soak) (ends_plan hworks hfair soak) entropy
  have hmeets := ensures_plan hworks soak rounds entropy
  rw [hplan] at hmeets
  exact ⟨rounds, plan, hplan, hmeets⟩

/-- Machines and names of their own. -/
def varyingSoak : Soak := { sampleSoak with vary := ⟨true, some .netBios⟩ }

theorem plan_drawn_sample : ∃ rounds plan, (varyingSoak.plan script rounds [7]).1 = .drawn plan ∧ plan.length = 2 ∧
    ∀ fields ∈ plan, Names.Named .netBios fields.workstationName ∧
      ∃ body, fields.toBody = .ok body ∧ SameFields fields (.fromBody body) := by
  obtain ⟨rounds, plan, hplan, hlength, hplanned⟩ := plan_drawn varyingSoak works_script fairSource_script [7]
  exact ⟨rounds, plan, hplan, hlength, fun fields hfields => (hplanned fields hfields).named _ rfl⟩

/-- A load run, in whatever order its workers go on and whatever the host does to them. It
ends; until then each worker can go on; and then each planned request was decided once, and the
report says what came of them. -/
theorem soak_settles (hplan : (soak.plan source rounds entropy).1 = .drawn plan)
    (h : Reaches (alone (soak.worker network D rng)) (soak.start plan) past crew) :
    past.length ≤ 6 * soak.requests.toNat + max soak.concurrency 1 ∧
      (∀ worker ∈ crew.places, ∀ event,
        (soak.worker network D rng crew.shared worker event).isSome ↔ worker.place ≠ .stopped) ∧
      ((∀ worker ∈ crew.places, worker.place = .stopped) →
        Settled soak plan (decisions network D rng past) (Soak.report crew)) := by
  refine ⟨length_of_reaches h, fun worker _ event => isSome_worker _ _ _, fun hstopped => ?_⟩
  exact (settling_of_reaches (length_plan hplan) h).settled (length_plan hplan) hstopped

theorem soak_settles_sample : ∃ (past : List (Taken Unit Unit)) (crew : Crew Shared Worker), past.length ≤ 14 ∧
    Settled sampleSoak [sampleFields, sampleFields] (decisions unreachable sampleEndpoint.digests constantDraws past)
      (Soak.report crew) := by
  obtain ⟨past, crew, hreaches, hstopped⟩ := sample_stops
  obtain ⟨hlength, -, hsettled⟩ := soak_settles sample_plan hreaches
  exact ⟨past, crew, hlength, hsettled hstopped⟩

/-- How often a load run connects: where connections are kept, at most once for each worker and
once more for each failure; where they are not, once for each request. -/
theorem soak_connects (hplan : (soak.plan source rounds entropy).1 = .drawn plan)
    (h : Reaches (alone (soak.worker network D rng)) (soak.start plan) past crew) :
    (soak.reconnect = false →
      past.countP Taken.opens ≤ max soak.concurrency 1 + (failures (decisions network D rng past)).length) ∧
    (soak.reconnect = true → past.countP Taken.opens ≤ (decisions network D rng past).length + max soak.concurrency 1 ∧
      ((∀ worker ∈ crew.places, worker.place = .stopped) → past.countP Taken.opens = soak.requests.toNat)) := by
  have hsettling := settling_of_reaches (length_plan hplan) h
  have hconnected := hsettling.connected
  rw [Connected] at hconnected
  refine ⟨fun hkeep => ?_, fun hkeep => ⟨?_, fun hstopped => ?_⟩⟩
  · rw [hkeep, if_neg Bool.false_ne_true] at hconnected
    omega
  · rw [hkeep, if_pos rfl] at hconnected
    rw [hconnected, ← hsettling.size]
    exact Nat.add_le_add_left (held_le_length fun worker => by unfold Worker.joined; split <;> simp) _
  · rw [hkeep, if_pos rfl, held_eq_zero fun worker hmem => ?_, add_zero] at hconnected
    · rw [hconnected, ← length_plan hplan, ← (hsettling.settled (length_plan hplan) hstopped).sent.length_eq, List.length_map]
    · rw [show worker = ⟨.stopped, worker.session⟩ by rw [← hstopped worker hmem]]
      rfl

theorem soak_connects_sample : ∃ (past : List (Taken Unit Unit)) (crew : Crew Shared Worker),
    (∀ worker ∈ crew.places, worker.place = .stopped) ∧ (Soak.report crew).completed + (Soak.report crew).failed = 2 ∧
      past.countP Taken.opens ≤ 2 + (failures (decisions unreachable sampleEndpoint.digests constantDraws past)).length := by
  obtain ⟨past, crew, hreaches, hstopped⟩ := sample_stops
  have hsettled := (settling_of_reaches (length_plan sample_plan) hreaches).settled (length_plan sample_plan) hstopped
  exact ⟨past, crew, hstopped, hsettled.total, (soak_connects sample_plan hreaches).1 rfl⟩

end

end Kmsrs.Client
