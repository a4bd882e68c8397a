import Kmsrs.Lib.Gather
import Kmsrs.Policy.Fleet
import Kmsrs.Policy.Journal

/-! What the fleet view shows. The scan of the log gathers its events by machine and
product, so each row is that of its pair's events: counted, with the time of the first and
the columns of the last. The rows shown are those of the pairs that were seen last. -/

namespace Kmsrs.Policy.Events

open Kms Wire

/-- The rows are gathered by machine and product. -/
def fleet : Gather Event ClientView (Guid × Guid) where
  key := Event.key
  rowKey := ClientView.key
  first := ClientView.first
  again := ClientView.again
  rowKey_first _ := rfl
  rowKey_again _ _ := rfl

theorem ClientView.see_eq (event : Event) (rows : List ClientView) : ClientView.see event rows = fleet.put event rows := by
  induction rows with
  | nil => rfl
  | cons row rows ih =>
    rw [ClientView.see, Gather.put, ih]
    rfl

theorem EventLog.clients_eq (log : EventLog) (limit : ℕ) : log.clients limit =
    ((fleet.rows log.events).insertionSort fun a b => b.lastSequence ≤ a.lastSequence).take limit := by
  have hscan : (fun rows event => ClientView.see event rows) = fun rows event => fleet.put event rows := by
    funext rows event
    exact ClientView.see_eq event rows
  rw [clients, hscan]
  rfl

/-! ### One row -/

namespace ClientView

/-- The row of a pair's events. -/
def summary (earliest latest : Event) (requests activations : ℕ) : ClientView where
  clientMachineId := earliest.clientMachineId
  sku := earliest.sku
  application := latest.application
  counted := latest.counted
  workstationName := latest.workstationName
  peer := latest.peer
  firstSeen := earliest.atTime
  lastSeen := latest.atTime
  lastSequence := latest.sequence
  requests := saturateU64 requests
  activations := saturateU64 activations
  activatedLast := latest.activated

theorem saturateU64_succ (n : ℕ) : saturateU64 ((saturateU64 n).toNat + 1) = saturateU64 (n + 1) := by
  apply UInt64.toNat_inj.mp
  simp only [toNat_saturateU64]
  omega

theorem foldl_again (earliest : Event) (later : List Event) : later.foldl ClientView.again (first earliest) =
    summary earliest (later.getLastD earliest) (later.length + 1) ((earliest :: later).countP Event.activated) := by
  induction later using List.reverseRecOn with
  | nil =>
    cases hactivated : earliest.activated <;> simp [first, summary, hactivated] <;> decide
  | append_singleton later event ih =>
    rw [List.foldl_concat, ih, ← List.cons_append, List.countP_append, List.countP_singleton, List.length_append,
      List.length_singleton, List.getLastD_concat]
    cases hactivated : event.activated <;>
      simp [again, summary, hactivated, saturateU64_succ]

end ClientView

/-- The events of a machine and product. -/
def ofPair (pair : Guid × Guid) (events : List Event) : List Event := events.filter fun event => event.key = pair

theorem mem_ofPair {pair : Guid × Guid} {events : List Event} {event : Event} :
    event ∈ ofPair pair events ↔ event ∈ events ∧ event.key = pair := by
  rw [ofPair, List.mem_filter, decide_eq_true_eq]

/-- The row counts the events of its machine and product, and has the time of the earliest and
what the latest says. -/
structure Summarises (events : List Event) (row : ClientView) : Prop where
  requests : row.requests.toNat = (ofPair row.key events).length
  activations : row.activations.toNat = ((ofPair row.key events).filter Event.activated).length
  earliest : ∃ event ∈ ofPair row.key events, (∀ other ∈ ofPair row.key events, event.sequence ≤ other.sequence) ∧
    row.firstSeen = event.atTime
  latest : ∃ event ∈ ofPair row.key events, (∀ other ∈ ofPair row.key events, other.sequence ≤ event.sequence) ∧
    row.lastSeen = event.atTime ∧ row.lastSequence = event.sequence ∧ row.workstationName = event.workstationName ∧
    row.application = event.application ∧ row.counted = event.counted ∧ row.peer = event.peer ∧
    row.activatedLast = event.activated

section
variable {events : List Event} (hordered : events.Pairwise fun event later => event.sequence < later.sequence)
  (hfew : events.length < 2 ^ 64)
include hordered hfew

theorem summarises_of_mem {row : ClientView} (h : row ∈ fleet.rows events) : Summarises events row := by
  have hgroup : fleet.rowOf (ofPair row.key events) = some row := Gather.mem_rows_iff.mp h
  have hsorted : (ofPair row.key events).Pairwise fun event later => event.sequence < later.sequence := hordered.filter _
  have hlength : (ofPair row.key events).length < 2 ^ 64 := (List.length_filter_le ..).trans_lt hfew
  suffices ∀ pair, fleet.rowOf pair = some row → pair.Pairwise (fun event later => event.sequence < later.sequence) →
      pair.length < 2 ^ 64 → ofPair row.key events = pair → Summarises events row from
    this _ hgroup hsorted hlength rfl
  intro pair hrow hsorted hlength hpair
  cases pair with
  | nil => cases hrow
  | cons earliest later =>
    have hsummary : row = ClientView.summary earliest (later.getLastD earliest) (later.length + 1)
        ((earliest :: later).countP Event.activated) :=
      (Option.some.inj hrow).symm.trans (ClientView.foldl_again earliest later)
    have hactivated := List.countP_le_length (p := Event.activated) (l := earliest :: later)
    rw [List.length_cons] at hlength hactivated
    constructor
    · rw [hpair, hsummary, ClientView.summary, toNat_saturateU64, List.length_cons]
      omega
    · rw [hpair, ← List.countP_eq_length_filter, hsummary, ClientView.summary, toNat_saturateU64]
      omega
    · rw [hpair]
      refine ⟨earliest, List.mem_cons_self, fun other hother => ?_, by rw [hsummary, ClientView.summary]⟩
      rcases List.mem_cons.mp hother with rfl | hlater
      · exact UInt64.le_refl _
      · exact UInt64.le_of_lt ((List.pairwise_cons.mp hsorted).1 other hlater)
    · have hlast : later.getLastD earliest = (earliest :: later).getLast (List.cons_ne_nil _ _) :=
        (List.getLast_eq_getLastD _).symm
      rw [hpair]
      refine ⟨later.getLastD earliest, hlast ▸ List.getLast_mem _, fun other hother => ?_, ?_⟩
      · have hsplit := List.dropLast_append_getLast (List.cons_ne_nil earliest later)
        rw [← hsplit] at hsorted hother
        rw [hlast]
        rcases List.mem_append.mp hother with hbefore | hsame
        · exact UInt64.le_of_lt ((List.pairwise_append.mp hsorted).2.2 other hbefore _ (List.mem_singleton_self _))
        · rw [List.mem_singleton.mp hsame]
          exact UInt64.le_refl _
      · rw [hsummary]
        exact ⟨rfl, rfl, rfl, rfl, rfl, rfl, rfl⟩

/-- The last event of one pair is not that of another. -/
theorem key_eq_of_lastSequence_eq {row other : ClientView} (hrow : row ∈ fleet.rows events) (hother : other ∈ fleet.rows events)
    (h : row.lastSequence = other.lastSequence) : row.key = other.key := by
  obtain ⟨event, hevent, -, -, hlast, -⟩ := (summarises_of_mem hordered hfew hrow).latest
  obtain ⟨event', hevent', -, -, hlast', -⟩ := (summarises_of_mem hordered hfew hother).latest
  obtain ⟨hheld, hkey⟩ := mem_ofPair.mp hevent
  obtain ⟨hheld', hkey'⟩ := mem_ofPair.mp hevent'
  have hdistinct : (events.map Event.sequence).Nodup := List.pairwise_map.mpr (hordered.imp UInt64.ne_of_lt)
  have hsame : event = event' := List.inj_on_of_nodup_map hdistinct hheld hheld' (hlast.symm.trans (h.trans hlast'))
  rw [← hkey, ← hkey', hsame]

end

/-- The rows of the view: one of each pair, each the summary of the pair's events, the pairs
that were seen last and the last first. -/
structure FleetView (events : List Event) (limit : ℕ) (rows : List ClientView) : Prop where
  distinct : (rows.map ClientView.key).Nodup
  length : rows.length = min limit (events.map Event.key).dedup.length
  summarised : ∀ row ∈ rows, Summarises events row
  descending : rows.Pairwise fun row later => later.lastSequence < row.lastSequence
  newest : ∀ event ∈ events, event.key ∉ rows.map ClientView.key → ∀ row ∈ rows, event.sequence < row.lastSequence
  total : (events.map Event.key).dedup.length ≤ limit → (rows.map fun row => row.requests.toNat).sum = events.length

/-- Seen later, or as late. -/
instance : Std.Total fun a b : ClientView => b.lastSequence ≤ a.lastSequence := ⟨fun a b => UInt64.le_total b.lastSequence a.lastSequence⟩

instance : IsTrans ClientView fun a b => b.lastSequence ≤ a.lastSequence := ⟨fun _ _ _ h h' => UInt64.le_trans h' h⟩

/-- The fleet view is the log by machine and product. A log holds fewer events than there are
numbers of 64 bits. -/
theorem fleetView_clients (log : EventLog) (limit : ℕ)
    (hordered : log.events.Pairwise fun event later => event.sequence < later.sequence) (hfew : log.events.length < 2 ^ 64) :
    FleetView log.events limit (log.clients limit) := by
  have hmem : ∀ row, row ∈ (fleet.rows log.events).insertionSort (fun a b => b.lastSequence ≤ a.lastSequence) ↔
      row ∈ fleet.rows log.events := fun row => List.mem_insertionSort _
  have hperm := List.perm_insertionSort (fun a b : ClientView => b.lastSequence ≤ a.lastSequence) (fleet.rows log.events)
  have hdistinct : (((fleet.rows log.events).insertionSort fun a b => b.lastSequence ≤ a.lastSequence).map ClientView.key).Nodup :=
    (hperm.map ClientView.key).nodup_iff.mpr (Gather.nodup_rows (G := fleet) log.events)
  have hweak := List.pairwise_insertionSort (fun a b : ClientView => b.lastSequence ≤ a.lastSequence) (fleet.rows log.events)
  have hlength := hperm.length_eq.trans (Gather.length_rows log.events)
  rw [EventLog.clients_eq]
  generalize (fleet.rows log.events).insertionSort (fun a b => b.lastSequence ≤ a.lastSequence) = sorted at *
  have hstrict : sorted.Pairwise fun row later => later.lastSequence < row.lastSequence := by
    refine (hweak.and (List.pairwise_map.mp hdistinct)).imp_of_mem fun hrow hlater ⟨hle, hne⟩ => ?_
    refine UInt64.lt_of_le_of_ne hle fun hsame => ?_
    exact hne (key_eq_of_lastSequence_eq hordered hfew ((hmem _).mp hrow) ((hmem _).mp hlater) hsame.symm)
  have htaken : (sorted.take limit).Sublist sorted := List.take_sublist ..
  have hsummary : ∀ row ∈ sorted, Summarises log.events row := fun row hrow =>
    summarises_of_mem hordered hfew ((hmem row).mp hrow)
  refine ⟨hdistinct.sublist (htaken.map _), by rw [List.length_take, hlength]; rfl, fun row hrow => hsummary row (htaken.subset hrow),
    hstrict.sublist htaken, ?_, ?_⟩
  · -- the row of a pair that is not shown comes after those that are
    intro event hevent hleft row hrow
    have hkey : event.key ∈ sorted.map ClientView.key :=
      (hperm.map ClientView.key).mem_iff.mpr ((Gather.mem_rowKey_rows (G := fleet) log.events event.key).mpr (List.mem_map_of_mem hevent))
    obtain ⟨other, hother, hsame⟩ := List.mem_map.mp hkey
    rw [← List.take_append_drop limit sorted] at hother hstrict
    rcases List.mem_append.mp hother with hshown | hdropped
    · exact absurd (List.mem_map.mpr ⟨other, hshown, hsame⟩) hleft
    · have hbefore := (List.pairwise_append.mp hstrict).2.2 row hrow other hdropped
      obtain ⟨latest, -, hlatest, -, hlast, -⟩ := (hsummary other (List.mem_of_mem_drop hdropped)).latest
      have hle := hlatest event (mem_ofPair.mpr ⟨hevent, hsame.symm⟩)
      rw [← hlast] at hle
      exact UInt64.lt_of_le_of_lt hle hbefore
  · intro hall
    have hwhole : sorted.take limit = sorted := List.take_of_length_le (hlength.trans_le hall)
    rw [hwhole, List.map_congr_left fun row hrow => (hsummary row hrow).requests, (hperm.map _).sum_eq]
    exact Gather.sum_length_group (G := fleet) log.events

/-- Two requests of one machine for one product are one row. -/
theorem fleetView_two_records :
    FleetView ((EventLog.twoRecordsThenExpiry.take 2).foldl EventLog.next (EventLog.new 10 100)).events 5
      (((EventLog.twoRecordsThenExpiry.take 2).foldl EventLog.next (EventLog.new 10 100)).clients 5) :=
  fleetView_clients _ 5 (by decide +kernel) (by decide +kernel)

end Kmsrs.Policy.Events
