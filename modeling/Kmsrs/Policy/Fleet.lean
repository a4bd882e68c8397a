import Kmsrs.Policy.Events

/-! The views of the log that are shown: its last events, and the fleet, which is a row
for each machine and product. They are derived from the events on demand. -/

namespace Kmsrs.Policy.Events

open Kmsrs.Kms Kmsrs.Wire

/-- One row of the fleet view. -/
structure ClientView where
  clientMachineId : Guid
  sku : Guid
  application : Guid
  counted : Guid
  workstationName : WorkstationName
  peer : Option Peer
  firstSeen : Instant
  lastSeen : Instant
  lastSequence : UInt64
  requests : UInt64
  activations : UInt64
  activatedLast : Bool
deriving DecidableEq

def Event.key (event : Event) : Guid × Guid := (event.clientMachineId, event.sku)

namespace ClientView

def key (row : ClientView) : Guid × Guid := (row.clientMachineId, row.sku)

/-- The row of a pair not seen before. -/
def first (event : Event) : ClientView where
  clientMachineId := event.clientMachineId
  sku := event.sku
  application := event.application
  counted := event.counted
  workstationName := event.workstationName
  peer := event.peer
  firstSeen := event.atTime
  lastSeen := event.atTime
  lastSequence := event.sequence
  requests := 1
  activations := if event.activated then 1 else 0
  activatedLast := event.activated

/-- The last writer wins for the columns that can change. -/
def again (row : ClientView) (event : Event) : ClientView :=
  { row with
    requests := saturateU64 (row.requests.toNat + 1)
    activations := if event.activated then saturateU64 (row.activations.toNat + 1) else row.activations
    lastSeen := event.atTime
    lastSequence := event.sequence
    workstationName := event.workstationName
    application := event.application
    counted := event.counted
    peer := event.peer
    activatedLast := event.activated }

/-- The rows with one more event, which has its own row or the one of its pair. -/
def see (event : Event) : List ClientView → List ClientView
  | [] => [first event]
  | row :: rows => if row.key = event.key then row.again event :: rows else row :: see event rows

end ClientView

namespace EventLog

/-- The newest `limit` events, newest first. -/
def recent (log : EventLog) (limit : ℕ) : List Event := log.events.reverse.take limit

/-- The fleet, the pair seen last first. -/
def clients (log : EventLog) (limit : ℕ) : List ClientView :=
  let rows := log.events.foldl (fun rows event => ClientView.see event rows) []
  (rows.insertionSort fun a b => b.lastSequence ≤ a.lastSequence).take limit

end EventLog

/-! ### The views without the names -/

def Event.unnamed (event : Event) : Event := { event with workstationName := .empty }

def ClientView.unnamed (row : ClientView) : ClientView := { row with workstationName := .empty }

def EventLog.unnamed (log : EventLog) : EventLog := { log with events := log.events.map Event.unnamed }

theorem ClientView.map_see (event : Event) (rows : List ClientView) :
    (see event rows).map unnamed = see event.unnamed (rows.map unnamed) := by
  induction rows with
  | nil => rfl
  | cons row rows ih =>
    rw [see, List.map_cons, see]
    by_cases hkey : row.key = event.key
    · rw [if_pos hkey, if_pos (show row.unnamed.key = event.unnamed.key from hkey)]
      rfl
    · rw [if_neg hkey, if_neg (show row.unnamed.key ≠ event.unnamed.key from hkey), List.map_cons, ih]

theorem ClientView.map_foldl_see (events : List Event) (rows : List ClientView) :
    (events.foldl (fun rows event => see event rows) rows).map unnamed =
      (events.map Event.unnamed).foldl (fun rows event => see event rows) (rows.map unnamed) := by
  induction events generalizing rows with
  | nil => rfl
  | cons event events ih => rw [List.foldl_cons, ih, map_see, List.map_cons, List.foldl_cons]

namespace EventLog

variable (log : EventLog) (limit : ℕ)

/-- The names decide nothing in the fleet view but the names it shows. -/
theorem map_clients : (log.clients limit).map ClientView.unnamed = log.unnamed.clients limit := by
  rw [clients, clients, List.map_take,
    List.map_insertionSort (fun a b => b.lastSequence ≤ a.lastSequence) (fun a b => b.lastSequence ≤ a.lastSequence)
      ClientView.unnamed _ fun _ _ _ _ => Iff.rfl,
    ClientView.map_foldl_see]
  rfl

theorem map_recent : (log.recent limit).map Event.unnamed = log.unnamed.recent limit := by
  rw [recent, recent, List.map_take, List.map_reverse]
  rfl

end EventLog

end Kmsrs.Policy.Events
