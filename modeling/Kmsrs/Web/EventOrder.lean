import Kmsrs.Policy.Journal
import Kmsrs.Web.Routes

/-! The order of the events page. The log is in the order of its numbers, whatever was
recorded and dropped; the newest page is taken from its end and turned around once more, so
that it is shown with the oldest first. -/

namespace Kmsrs.Web

open Kmsrs.Policy.Events

/-- The rows are the newest page of the log, the newest first. -/
structure NewestFirst (log : EventLog) (rows : List Event) : Prop where
  length : rows.length = min eventsPerPage log.events.length
  held : ∀ row ∈ rows, row ∈ log.events
  newest : ∀ event ∈ log.events, event ∉ rows → ∀ row ∈ rows, event.sequence < row.sequence
  decreasing : rows.Pairwise fun row later => later.sequence < row.sequence

/-- The numbers of the events held never decrease, and none is above the next one to give. The
numbers stop growing at the greatest. -/
structure Numbered (log : EventLog) : Prop where
  ordered : log.events.Pairwise fun event later => event.sequence ≤ later.sequence
  given : ∀ event ∈ log.events, event.sequence ≤ log.nextSequence

theorem Numbered.expire {log : EventLog} (h : Numbered log) (now : Wire.Instant) : Numbered (log.expire now).2 where
  ordered := h.ordered.sublist (log.expire_suffix now).sublist
  given event hevent := h.given event ((log.expire_suffix now).subset hevent)

theorem Numbered.record {log : EventLog} (h : Numbered log) (record : Record) : Numbered (log.record record).2 := by
  obtain ⟨kept, hkept, hafter⟩ := log.record_appends record
  have hnext : log.nextSequence ≤ (log.record record).2.nextSequence := by
    have hlt := log.nextSequence.toNat_lt
    rw [EventLog.record_nextSequence, UInt64.le_iff_toNat_le, Policy.toNat_saturateU64]
    omega
  constructor
  · rw [hafter, List.pairwise_append]
    refine ⟨h.ordered.sublist hkept.sublist, List.pairwise_singleton .., fun event hevent later hlater => ?_⟩
    obtain rfl := List.mem_singleton.mp hlater
    exact h.given event (hkept.subset hevent)
  · intro event hevent
    rw [hafter, List.mem_append, List.mem_singleton] at hevent
    rcases hevent with hold | rfl
    · exact UInt64.le_trans (h.given event (hkept.subset hold)) hnext
    · exact hnext

/-- The log is in the order of its numbers after any calls. -/
theorem numbered_of_calls (capacity retention : ℕ) (calls : List Call) :
    Numbered (calls.foldl EventLog.next (EventLog.new capacity retention)) := by
  refine (Runs.of_path calls).invariant Numbered ⟨.nil, fun _ => False.elim ∘ List.not_mem_nil⟩ fun log call h => ?_
  cases call with
  | record entry => exact h.record entry
  | expire now => exact h.expire now

theorem shownEvents_suffix (log : EventLog) : shownEvents log <:+ log.events := by
  rw [shownEvents, EventLog.recent, List.reverse_take, List.reverse_reverse]
  exact List.drop_suffix ..

/-- Two events are shown in the order of the log, which is not that of the page. -/
theorem Numbered.newestFirst_iff {log : EventLog} (h : Numbered log) :
    NewestFirst log (shownEvents log) ↔ log.events.length ≤ 1 := by
  constructor
  · intro hrows
    by_contra hmany
    have hlength := hrows.length
    have hordered := h.ordered.sublist (shownEvents_suffix log).sublist
    have hdecreasing := hrows.decreasing
    match hshown : shownEvents log with
    | [] | [_] =>
      rw [hshown] at hlength
      simp only [List.length_nil, List.length_singleton, eventsPerPage] at hlength
      omega
    | row :: later :: rest =>
      rw [hshown] at hordered hdecreasing
      have hle := (List.pairwise_cons.mp hordered).1 later List.mem_cons_self
      have hlt := (List.pairwise_cons.mp hdecreasing).1 later List.mem_cons_self
      exact absurd hle (UInt64.not_le.mpr hlt)
  · intro hfew
    match hevents : log.events with
    | [] =>
      have hshown : shownEvents log = [] := by simp [shownEvents, EventLog.recent, hevents]
      rw [hshown]
      exact ⟨by simp [hevents], by simp, by simp, .nil⟩
    | [event] =>
      have hshown : shownEvents log = [event] := by simp [shownEvents, EventLog.recent, hevents, eventsPerPage]
      rw [hshown]
      exact ⟨by simp [hevents, eventsPerPage], by simp [hevents], by simp [hevents], List.pairwise_singleton ..⟩
    | _ :: _ :: _ =>
      rw [hevents] at hfew
      simp at hfew

/-- The page shows the newest first just when there are no two events, whatever was recorded. -/
theorem newestFirst_iff_length_le_one (capacity retention : ℕ) (calls : List Call) :
    NewestFirst (calls.foldl EventLog.next (EventLog.new capacity retention))
        (shownEvents (calls.foldl EventLog.next (EventLog.new capacity retention))) ↔
      (calls.foldl EventLog.next (EventLog.new capacity retention)).events.length ≤ 1 :=
  (numbered_of_calls capacity retention calls).newestFirst_iff

/-- A log with two records. -/
def twoRecords : EventLog :=
  [Call.record (EventLog.sampleRecord 1), Call.record (EventLog.sampleRecord 2)].foldl EventLog.next (EventLog.new 10 100)

/-- The first of them is shown first. -/
theorem two_events_oldest_first :
    (shownEvents twoRecords).map Event.sequence = [0, 1] ∧ ¬ NewestFirst twoRecords (shownEvents twoRecords) := by
  have hshown : (shownEvents twoRecords).map Event.sequence = [0, 1] := by decide +kernel
  refine ⟨hshown, fun h => ?_⟩
  have hdecreasing : ((shownEvents twoRecords).map Event.sequence).Pairwise fun row later => later < row :=
    List.pairwise_map.mpr h.decreasing
  rw [hshown] at hdecreasing
  revert hdecreasing
  decide

end Kmsrs.Web
