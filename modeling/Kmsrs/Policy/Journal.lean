import Kmsrs.Policy.Events

/-! The log over its whole history. Every record made so far was either dropped, and
counted, or is held; what is held is the end of what was made. With readings that
never decrease, dropping from the front is enough to drop all that is too old. -/

namespace Kmsrs.Policy.Events

open Kmsrs.Kms Kmsrs.Wire Kmsrs.Policy.Gate

/-- A call on the log. -/
inductive Call where
  | record (entry : Record)
  | expire (now : Instant)

namespace Call

def now : Call → Instant
  | .record entry => entry.now
  | .expire now => now

def record? : Call → Option Record
  | .record entry => some entry
  | .expire _ => none

end Call

/-- What the records make, each numbered by those before it. -/
def made (records : List Record) : List Event := records.mapIdx fun i record => record.event (.ofNat i)

theorem made_concat (records : List Record) (record : Record) :
    made (records ++ [record]) = made records ++ [record.event (.ofNat records.length)] := by
  simp [made]

@[simp] theorem length_made (records : List Record) : (made records).length = records.length := by
  simp [made]

namespace EventLog

def next (log : EventLog) : Call → EventLog
  | .record entry => (log.record entry).2
  | .expire now => (log.expire now).2

/-- The records among the calls so far. -/
def recordsOf (past : List (EventLog × Call)) : List Record := past.filterMap fun transition => transition.2.record?

/-- The log accounts for everything made so far. -/
structure Accounts (log : EventLog) (history : List Event) : Prop where
  recorded : log.nextSequence.toNat = history.length
  split : ∃ gone, history = gone ++ log.events ∧
    gone.length = log.dropped.byCapacity.toNat + log.dropped.byRetention.toNat
  capacity : 0 < log.capacity
  room : log.events.length ≤ log.capacity

section
variable {log : EventLog} {history : List Event}

/-- The next number is how many were made. -/
theorem Accounts.number {records : List Record} (h : Accounts log (made records)) (hfew : records.length < 2 ^ 64) :
    UInt64.ofNat records.length = log.nextSequence := by
  apply UInt64.toNat_inj.mp
  rw [UInt64.toNat_ofNat_of_lt' hfew, h.recorded, length_made]

theorem accounts_expire (h : Accounts log history) (hfew : history.length < 2 ^ 64) (now : Instant) :
    Accounts (log.expire now).2 history := by
  obtain ⟨gone, hhistory, hgone⟩ := h.split
  obtain ⟨stale, hevents, -, hcount⟩ := log.expire_split now
  have hlen : history.length = gone.length + (stale.length + (log.expire now).2.events.length) := by
    rw [hhistory, hevents, List.length_append, List.length_append]
  have hevery := congrArg List.length hevents
  rw [List.length_append] at hevery
  refine ⟨h.recorded, ⟨gone ++ stale, ?_, ?_⟩, h.capacity, ?_⟩
  · rw [List.append_assoc, ← hevents, hhistory]
  · rw [List.length_append, hcount, expire_byCapacity]
    omega
  · have := h.room
    rw [expire_capacity]
    omega

theorem accounts_record (h : Accounts log history) (hfew : history.length + 1 < 2 ^ 64) (record : Record) :
    Accounts (log.record record).2 (history ++ [record.event log.nextSequence]) := by
  obtain ⟨gone, hhistory, hgone⟩ := h.split
  obtain ⟨stale, evicted, kept, hsplit⟩ := log.record_split h.capacity h.room record
  have hlen : history.length = gone.length + (stale.length + (evicted.length + kept.length)) := by
    rw [hhistory, hsplit.before]
    simp only [List.length_append]
  refine ⟨?_, ⟨gone ++ (stale ++ evicted), ?_, ?_⟩, ?_, ?_⟩
  · rw [record_nextSequence, toNat_saturateU64, h.recorded, List.length_append, List.length_singleton]
    omega
  · rw [hsplit.after, hhistory, hsplit.before]
    simp only [List.append_assoc]
  · rw [hsplit.byCapacity, hsplit.byRetention]
    simp only [List.length_append]
    omega
  · rw [record_capacity]
    exact h.capacity
  · have := hsplit.room
    rw [record_capacity, hsplit.after, List.length_append, List.length_singleton]
    omega

/-- Dropping from the front of an ordered log drops all that is too old. -/
theorem live_of_expire (hordered : log.events.Pairwise fun a b => a.atTime.toNat ≤ b.atTime.toNat) (now : Instant) :
    ∀ event ∈ (log.expire now).2.events, event.live log.retention now = true := by
  have haged := Recency.aged_fresh (fun event : Event => event.atTime.toNat) log.retention hordered now.toNat
  intro event hevent
  rw [expire_events] at hevent
  have hfilter := haged.dropWhile
  rw [show log.events.dropWhile (fun event => !event.live log.retention now) = _ from hfilter] at hevent
  exact (List.mem_filter.mp hevent).2

end

/-! ### Whole runs -/

/-- Why an event leaves with a call: it is too old for an expiry, or the oldest of a
full log that another is recorded in. -/
def Retired (log : EventLog) (call : Call) (event : Event) : Prop :=
  log.retention ≤ call.now.saturatingDurationSince event.atTime ∨
    (call.record?.isSome ∧ (log.expire call.now).2.events.head? = some event ∧
      log.capacity ≤ (log.expire call.now).2.events.length)

theorem le_duration_of_not_live {retention : ℕ} {now : Instant} {event : Event}
    (h : event.live retention now = false) : retention ≤ now.saturatingDurationSince event.atTime := by
  simpa [Event.live, Recency.fresh, Instant.saturatingDurationSince] using h

/-- An event that a call finds is still there after it, or has a reason to leave. -/
theorem held_or_retired (log : EventLog) (hcapacity : 0 < log.capacity) (hroom : log.events.length ≤ log.capacity)
    (call : Call) {event : Event} (hevent : event ∈ log.events) :
    event ∈ (log.next call).events ∨ Retired log call event := by
  cases call with
  | expire now =>
    obtain ⟨stale, hbefore, hstale, -⟩ := log.expire_split now
    rw [hbefore, List.mem_append] at hevent
    rcases hevent with hgone | hkept
    · exact .inr (.inl (le_duration_of_not_live (hstale event hgone)))
    · exact .inl hkept
  | record entry =>
    obtain ⟨stale, evicted, kept, hsplit⟩ := log.record_split hcapacity hroom entry
    rw [hsplit.before, List.mem_append, List.mem_append] at hevent
    rcases hevent with hgone | hgone | hkept
    · exact .inr (.inl (le_duration_of_not_live (hsplit.tooOld event hgone)))
    · exact .inr (.inr ⟨rfl, hsplit.oldest event hgone⟩)
    · left
      change event ∈ (log.record entry).2.events
      rw [hsplit.after]
      exact List.mem_append_left _ hkept

variable {capacity retention : ℕ} {past : List (EventLog × Call)} {log : EventLog}

theorem recordsOf_concat (past : List (EventLog × Call)) (log : EventLog) (call : Call) :
    recordsOf (past ++ [(log, call)]) = recordsOf past ++ call.record?.toList := by
  rw [recordsOf, List.filterMap_append, ← recordsOf]
  cases call <;> rfl

theorem accounts_of_runs (hrun : Runs next (new capacity retention) past log)
    (hfew : (recordsOf past).length < 2 ^ 64) :
    Accounts log (made (recordsOf past)) ∧ log.capacity = max capacity 1 ∧ log.retention = retention := by
  revert hfew
  refine hrun.history (fun past log => (recordsOf past).length < 2 ^ 64 →
    Accounts log (made (recordsOf past)) ∧ log.capacity = max capacity 1 ∧ log.retention = retention) ?_ ?_
  · intro _
    exact ⟨⟨rfl, ⟨[], rfl, rfl⟩, Nat.lt_of_lt_of_le Nat.zero_lt_one (le_max_right _ _), Nat.zero_le _⟩, rfl, rfl⟩
  · intro past log call _ ih hfew
    rw [recordsOf_concat] at hfew ⊢
    cases call with
    | expire now =>
      rw [show (Call.expire now).record?.toList = [] from rfl, List.append_nil] at hfew ⊢
      obtain ⟨haccounts, hcapacity, hretention⟩ := ih hfew
      exact ⟨accounts_expire haccounts (by simpa using hfew) now, hcapacity, hretention⟩
    | record entry =>
      rw [show (Call.record entry).record?.toList = [entry] from rfl] at hfew ⊢
      rw [List.length_append, List.length_singleton] at hfew
      obtain ⟨haccounts, hcapacity, hretention⟩ := ih (by omega)
      rw [made_concat, haccounts.number (Nat.lt_of_succ_lt hfew)]
      exact ⟨accounts_record haccounts (by rwa [length_made]) entry, (record_capacity log entry).trans hcapacity,
        (record_retention log entry).trans hretention⟩

theorem times_made (records : List Record) :
    (made records).map (fun event => event.atTime.toNat) = records.map fun entry => entry.now.toNat := by
  refine List.ext_getElem (by simp) fun i _ _ => ?_
  simp [made, Record.event]

/-- The records are in the order of the calls. -/
theorem times_recordsOf (past : List (EventLog × Call)) :
    ((recordsOf past).map fun entry => entry.now.toNat).Sublist
      (past.map fun transition => transition.2.now.toNat) := by
  induction past with
  | nil => exact List.Sublist.refl _
  | cons transition past ih =>
    obtain ⟨log, call⟩ := transition
    cases call with
    | record entry => exact ih.cons_cons _
    | expire now => exact ih.cons _

/-- Readings that never decrease. -/
def Ordered (past : List (EventLog × Call)) : Prop :=
  (past.map fun transition => transition.2.now.toNat).Pairwise (· ≤ ·)

theorem Accounts.ordered (h : Accounts log (made (recordsOf past))) (hordered : Ordered past) :
    log.events.Pairwise fun a b => a.atTime.toNat ≤ b.atTime.toNat := by
  obtain ⟨gone, hhistory, -⟩ := h.split
  have hmade : ((made (recordsOf past)).map fun event => event.atTime.toNat).Pairwise (· ≤ ·) := by
    rw [times_made]
    exact hordered.sublist (times_recordsOf past)
  rw [List.pairwise_map, hhistory] at hmade
  exact (List.pairwise_append.mp hmade).2.1

/-- Everything made is held, or found a reason to leave. -/
theorem held_or_retired_of_runs (hrun : Runs next (new capacity retention) past log)
    (hfew : (recordsOf past).length < 2 ^ 64) :
    ∀ event ∈ made (recordsOf past), event ∈ log.events ∨
      ∃ transition ∈ past, event ∈ transition.1.events ∧ Retired transition.1 transition.2 event := by
  revert hfew
  refine hrun.history (fun past log => (recordsOf past).length < 2 ^ 64 →
    ∀ event ∈ made (recordsOf past), event ∈ log.events ∨
      ∃ transition ∈ past, event ∈ transition.1.events ∧ Retired transition.1 transition.2 event) ?_ ?_
  · intro _ event hevent
    exact absurd hevent List.not_mem_nil
  · intro past log call hbefore ih hfew event hevent
    have hfewer : (recordsOf past).length < 2 ^ 64 := by
      rw [recordsOf_concat, List.length_append] at hfew
      omega
    obtain ⟨haccounts, -, -⟩ := accounts_of_runs hbefore hfewer
    have hold : event ∈ made (recordsOf past) → event ∈ (log.next call).events ∨
        ∃ transition ∈ past ++ [(log, call)], event ∈ transition.1.events ∧
          Retired transition.1 transition.2 event := by
      intro hmade
      rcases ih hfewer event hmade with hheld | ⟨transition, htransition, hfound, hretired⟩
      · rcases held_or_retired log haccounts.capacity haccounts.room call hheld with hkept | hretired
        · exact .inl hkept
        · exact .inr ⟨(log, call), by simp, hheld, hretired⟩
      · exact .inr ⟨transition, List.mem_append_left _ htransition, hfound, hretired⟩
    cases call with
    | expire now =>
      rw [recordsOf_concat, show (Call.expire now).record?.toList = [] from rfl, List.append_nil] at hevent
      exact hold hevent
    | record entry =>
      rw [recordsOf_concat, show (Call.record entry).record?.toList = [entry] from rfl, made_concat,
        List.mem_append, List.mem_singleton] at hevent
      rcases hevent with hmade | rfl
      · exact hold hmade
      · left
        obtain ⟨stale, evicted, kept, hsplit⟩ := log.record_split haccounts.capacity haccounts.room entry
        change _ ∈ (log.record entry).2.events
        rw [hsplit.after, haccounts.number hfewer]
        simp

/-- An event held is the record of its number. -/
theorem Accounts.held (h : Accounts log (made (recordsOf past))) (hfew : (recordsOf past).length < 2 ^ 64)
    {event : Event} (hevent : event ∈ log.events) :
    ∃ entry, (recordsOf past)[event.sequence.toNat]? = some entry ∧ event = entry.event event.sequence := by
  obtain ⟨gone, hhistory, -⟩ := h.split
  have hmade : event ∈ made (recordsOf past) := by
    rw [hhistory]
    exact List.mem_append_right _ hevent
  obtain ⟨i, hi, rfl⟩ := List.mem_mapIdx.mp hmade
  have hnumber : (UInt64.ofNat i).toNat = i := UInt64.toNat_ofNat_of_lt' (Nat.lt_trans hi hfew)
  refine ⟨(recordsOf past)[i], ?_, rfl⟩
  change (recordsOf past)[(UInt64.ofNat i).toNat]? = _
  rw [hnumber, List.getElem?_eq_getElem hi]

theorem sequences_made {records : List Record} (hfew : records.length < 2 ^ 64) :
    (made records).map (fun event => event.sequence.toNat) = List.range records.length := by
  refine List.ext_getElem (by simp) fun i hi _ => ?_
  have hlt : i < records.length := by simpa using hi
  have hnumber : (UInt64.ofNat i).toNat = i := UInt64.toNat_ofNat_of_lt' (Nat.lt_trans hlt hfew)
  simp [made, Record.event, hnumber]

/-- After a call the log holds nothing too old, except for a record just made. -/
theorem live_of_runs (hrun : Runs next (new capacity retention) past log) (hordered : Ordered past)
    (hfew : (recordsOf past).length < 2 ^ 64) {before : List (EventLog × Call)} {found : EventLog} {call : Call}
    (hlast : past = before ++ [(found, call)]) {event : Event} (hevent : event ∈ log.events) :
    event.live retention call.now = true ∨
      (call.record?.isSome ∧ event.sequence.toNat + 1 = log.recorded.toNat) := by
  obtain ⟨hbefore, rfl⟩ := hrun.last hlast
  subst hlast
  rw [recordsOf_concat, List.length_append] at hfew
  have hfewer : (recordsOf before).length < 2 ^ 64 := by omega
  obtain ⟨haccounts, -, hretention⟩ := accounts_of_runs hbefore hfewer
  have hfound : Ordered before := hordered.sublist ((List.sublist_append_left _ _).map _)
  have hlive := live_of_expire (haccounts.ordered hfound) call.now
  rw [hretention] at hlive
  cases call with
  | expire now => exact .inl (hlive event hevent)
  | record entry =>
    obtain ⟨stale, evicted, kept, hsplit⟩ := found.record_split haccounts.capacity haccounts.room entry
    change event ∈ (found.record entry).2.events at hevent
    rw [hsplit.after, List.mem_append, List.mem_singleton] at hevent
    rcases hevent with hkept | rfl
    · refine .inl (hlive event ?_)
      change event ∈ (found.expire entry.now).2.events
      rw [hsplit.expired]
      exact List.mem_append_right _ hkept
    · refine .inr ⟨rfl, ?_⟩
      have hsome : (Call.record entry).record?.toList.length = 1 := rfl
      change found.nextSequence.toNat + 1 = (found.record entry).2.nextSequence.toNat
      rw [record_nextSequence, toNat_saturateU64, haccounts.recorded, length_made]
      omega

/-- The log after any run of calls at readings that never decrease: the numbers held
are consecutive and end at the last one given; each event is the record of its
number; the log is within its capacity; what left is accounted for; what is held after
a call is inside the retention period, except for a record just made; and what left
was too old, or the oldest of a full log. -/
theorem history_invariant (capacity retention : ℕ) {past : List (EventLog × Call)} {log : EventLog}
    (hrun : Runs next (new capacity retention) past log) (hordered : Ordered past)
    (hfew : (recordsOf past).length < 2 ^ 64) :
    (log.events.length ≤ log.recorded.toNat ∧ log.events.map (fun event => event.sequence.toNat) =
      List.range' (log.recorded.toNat - log.events.length) log.events.length) ∧
    (∀ event ∈ log.events, ∃ entry, (recordsOf past)[event.sequence.toNat]? = some entry ∧
      event = entry.event event.sequence) ∧
    log.events.length ≤ max capacity 1 ∧
    log.recorded.toNat = log.events.length + log.dropped.byCapacity.toNat + log.dropped.byRetention.toNat ∧
    (∀ before found call, past = before ++ [(found, call)] → ∀ event ∈ log.events,
      call.now.saturatingDurationSince event.atTime < retention ∨
        (call.record?.isSome ∧ event.sequence.toNat + 1 = log.recorded.toNat)) ∧
    ∀ event ∈ made (recordsOf past), event ∉ log.events →
      ∃ transition ∈ past, event ∈ transition.1.events ∧ Retired transition.1 transition.2 event := by
  obtain ⟨haccounts, hcapacity, hretention⟩ := accounts_of_runs hrun hfew
  obtain ⟨gone, hhistory, hgone⟩ := haccounts.split
  have hlen := congrArg List.length hhistory
  rw [length_made, List.length_append] at hlen
  have hrecorded : log.recorded.toNat = (recordsOf past).length := haccounts.recorded.trans (length_made _)
  refine ⟨⟨by omega, ?_⟩, fun event hevent => haccounts.held hfew hevent, hcapacity ▸ haccounts.room, by omega, ?_, ?_⟩
  · have hfirst : log.recorded.toNat - log.events.length = gone.length := by omega
    have hnumbers := sequences_made hfew
    rw [hhistory, List.map_append, hlen, List.range_add] at hnumbers
    obtain ⟨-, hheld⟩ := List.append_inj hnumbers (by simp)
    rw [hheld, hfirst, List.range'_eq_map_range]
  · intro before found call hlast event hevent
    refine (live_of_runs hrun hordered hfew hlast hevent).imp_left fun hlive => ?_
    simpa [Event.live, Recency.fresh, Instant.saturatingDurationSince] using hlive
  · intro event hmade hleft
    exact (held_or_retired_of_runs hrun hfew event hmade).resolve_left hleft

def sampleRecord (now : Instant) : Record where
  request := sampleRequest windows server2025
  peer := none
  now
  outcome := .refused .applicationMismatch
  observations := ⟨false, none, false⟩

/-- A log of one place: the second record takes the place of the first, and expires. -/
def twoRecordsThenExpiry : List Call := [.record (sampleRecord 1), .record (sampleRecord 2), .expire 20]

theorem two_records_accounted :
    (twoRecordsThenExpiry.foldl next (new 0 10)).recorded.toNat =
      (twoRecordsThenExpiry.foldl next (new 0 10)).events.length +
        (twoRecordsThenExpiry.foldl next (new 0 10)).dropped.byCapacity.toNat +
        (twoRecordsThenExpiry.foldl next (new 0 10)).dropped.byRetention.toNat :=
  (history_invariant 0 10 (Runs.of_path twoRecordsThenExpiry) (by unfold Ordered; decide +kernel) (by decide +kernel)).2.2.2.1

end EventLog

end Kmsrs.Policy.Events
