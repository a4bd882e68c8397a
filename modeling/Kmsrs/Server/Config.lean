import Kmsrs.Policy.Events

/-! The settings a running host may be told: one document, whose absent fields mean
the defaults. What is accepted is in range; what is not names the field. The reading
of the document's own syntax is a parameter. -/

namespace Kmsrs.Server.Config

open Kmsrs.Policy.Events

inductive LogLevel where
  | error
  | warn
  | info
  | debug
deriving DecidableEq

inductive LogFormat where
  | json
  | text
deriving DecidableEq

inductive ColourChoice where
  | auto
  | always
  | never
deriving DecidableEq

/-- The settings; the retention is in nanoseconds. -/
structure Operational where
  logLevel : LogLevel
  logFormat : LogFormat
  colour : ColourChoice
  webUi : Bool
  webUiPort : UInt16
  eventLogCapacity : ℕ
  eventRetention : ℕ
deriving DecidableEq

def Operational.default : Operational where
  logLevel := .info
  logFormat := .json
  colour := .auto
  webUi := true
  webUiPort := 8080
  eventLogCapacity := defaultCapacity
  eventRetention := defaultRetention

/-- The document as it was written: an absent field is not its default. -/
structure Document where
  logLevel : Option LogLevel := none
  logFormat : Option LogFormat := none
  colour : Option ColourChoice := none
  webUi : Option Bool := none
  webUiPort : Option UInt16 := none
  eventLogCapacity : Option ℕ := none
  eventRetentionDays : Option UInt32 := none
deriving DecidableEq

inductive ConfigError where
  | malformed (detail : String)
  | outOfRange (field problem : String)
deriving DecidableEq

def maxEventLogCapacity : ℕ := 1000000
def maxRetentionDays : UInt32 := 365

/-- One day, in nanoseconds. -/
def day : ℕ := 24 * 60 * 60 * 10 ^ 9

/-- The retention a document asks for. -/
def Document.retention (parsed : Document) : Except ConfigError ℕ :=
  match parsed.eventRetentionDays with
  | none => .ok Operational.default.eventRetention
  | some days =>
    if 1 ≤ days ∧ days ≤ maxRetentionDays then .ok (days.toNat * day)
    else .error (.outOfRange "event-retention-days" s!"must be between 1 and {maxRetentionDays}")

/-- Read the document, and check the fields one after the other. -/
def Operational.parse (fromStr : String → Except String Document) (document : String) :
    Except ConfigError Operational :=
  match fromStr document with
  | .error detail => .error (.malformed detail)
  | .ok parsed =>
    let eventLogCapacity := parsed.eventLogCapacity.getD Operational.default.eventLogCapacity
    if eventLogCapacity = 0 ∨ maxEventLogCapacity < eventLogCapacity then
      .error (.outOfRange "event-log-capacity" s!"must be between 1 and {maxEventLogCapacity}")
    else
      match parsed.retention with
      | .error error => .error error
      | .ok eventRetention =>
        let webUiPort := parsed.webUiPort.getD Operational.default.webUiPort
        if webUiPort = 0 then .error (.outOfRange "web-ui-port" "must not be zero")
        else
          .ok
            { logLevel := parsed.logLevel.getD Operational.default.logLevel
              logFormat := parsed.logFormat.getD Operational.default.logFormat
              colour := parsed.colour.getD Operational.default.colour
              webUi := parsed.webUi.getD Operational.default.webUi
              webUiPort
              eventLogCapacity
              eventRetention }

/-- What every accepted document satisfies. -/
structure Operational.InRange (operational : Operational) : Prop where
  capacity : 0 < operational.eventLogCapacity ∧ operational.eventLogCapacity ≤ maxEventLogCapacity
  retention : day ≤ operational.eventRetention ∧ operational.eventRetention ≤ maxRetentionDays.toNat * day
  port : operational.webUiPort ≠ 0

theorem Operational.inRange_default : Operational.default.InRange :=
  ⟨by decide, by decide, by decide⟩

variable {fromStr : String → Except String Document} {document : String} {operational : Operational}

theorem Document.retention_inRange {parsed : Document} {retention : ℕ} (h : parsed.retention = .ok retention) :
    day ≤ retention ∧ retention ≤ maxRetentionDays.toNat * day := by
  unfold Document.retention at h
  split at h
  · cases h
    exact Operational.inRange_default.retention
  next days hdays =>
    split_ifs at h with hrange
    cases h
    have hlow : 1 ≤ days.toNat := UInt32.le_iff_toNat_le.mp hrange.1
    have hhigh : days.toNat ≤ maxRetentionDays.toNat := UInt32.le_iff_toNat_le.mp hrange.2
    exact ⟨Nat.le_mul_of_pos_left _ hlow, Nat.mul_le_mul_right _ hhigh⟩

/-- What is accepted is read field by field, and is in range. -/
theorem Operational.parse_eq_ok (h : Operational.parse fromStr document = .ok operational) :
    operational.InRange ∧ ∃ parsed, fromStr document = .ok parsed ∧
      operational.eventLogCapacity = parsed.eventLogCapacity.getD Operational.default.eventLogCapacity ∧
      parsed.retention = .ok operational.eventRetention := by
  unfold Operational.parse at h
  split at h
  · cases h
  next parsed hparsed =>
    dsimp only at h
    by_cases hcapacity : parsed.eventLogCapacity.getD default.eventLogCapacity = 0 ∨
        maxEventLogCapacity < parsed.eventLogCapacity.getD default.eventLogCapacity
    · rw [if_pos hcapacity] at h
      cases h
    rw [if_neg hcapacity] at h
    cases hretention : parsed.retention with
    | error error =>
      rw [hretention] at h
      cases h
    | ok retention =>
      rw [hretention] at h
      dsimp only at h
      split_ifs at h with hport
      cases h
      exact ⟨⟨by simp only; omega, Document.retention_inRange hretention, hport⟩, parsed, hparsed, rfl, hretention⟩

/-- No narrower than the defaults. -/
structure Document.Roomy (parsed : Document) : Prop where
  capacity : ∀ capacity, parsed.eventLogCapacity = some capacity → defaultCapacity ≤ capacity
  retention : ∀ days, parsed.eventRetentionDays = some days → 30 ≤ days

theorem Operational.bounds_of_roomy (h : Operational.parse fromStr document = .ok operational)
    (hroomy : ∀ parsed, fromStr document = .ok parsed → parsed.Roomy) :
    defaultCapacity ≤ operational.eventLogCapacity ∧ defaultRetention ≤ operational.eventRetention := by
  obtain ⟨-, parsed, hparsed, hcapacity, hretention⟩ := Operational.parse_eq_ok h
  obtain ⟨hroom, hlong⟩ := hroomy parsed hparsed
  refine ⟨?_, ?_⟩
  · rw [hcapacity]
    cases hset : parsed.eventLogCapacity with
    | none => exact le_rfl
    | some capacity => exact hroom capacity hset
  · unfold Document.retention at hretention
    split at hretention
    · exact (Except.ok.inj hretention).le
    next days hdays =>
      split_ifs at hretention
      have hmonth : 30 ≤ days.toNat := UInt32.le_iff_toNat_le.mp (hlong days hdays)
      calc defaultRetention = 30 * day := by decide
        _ ≤ days.toNat * day := Nat.mul_le_mul_right _ hmonth
        _ = operational.eventRetention := Except.ok.inj hretention

/-- A document that says nothing means the defaults. -/
theorem Operational.parse_of_empty (h : fromStr document = .ok {}) :
    Operational.parse fromStr document = .ok .default := by
  have hrange := Operational.inRange_default
  have hcapacity : ¬(Operational.default.eventLogCapacity = 0 ∨
      maxEventLogCapacity < Operational.default.eventLogCapacity) := by
    have := hrange.capacity
    omega
  simp [Operational.parse, Document.retention, h, hcapacity, hrange.port]

end Kmsrs.Server.Config
