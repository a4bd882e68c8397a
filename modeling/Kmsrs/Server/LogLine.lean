import Kmsrs.Kms.WorkstationName
import Kmsrs.Server.Log

/-! Whether the line of a request is one line. The text form writes the name of the
machine as it is, and the JSON form escapes what lies below the space only; all
else on a line is printable. -/

namespace Kmsrs.Server

open Config (LogLevel LogFormat)
open Kms Policy Policy.Events Policy.Gate Text

/-- The control characters that a format lets through. -/
def leaks (format : LogFormat) (code : ℕ) : Bool :=
  match format with
  | .text => code < 0x20 || (0x7F ≤ code && code < 0xA0)
  | .json => 0x7F ≤ code && code < 0xA0

/-- Nothing in the text gets through as a control character. -/
def Clean (format : LogFormat) (text : Text) : Prop := ∀ c ∈ text, ¬ leaks format c.toNat

instance (format : LogFormat) (text : Text) : Decidable (Clean format text) :=
  inferInstanceAs (Decidable (∀ c ∈ text, ¬ leaks format c.toNat))

theorem clean_text {text : Text} : Clean .text text ↔ Printable text := Iff.rfl

theorem printable_escapeJsonCharacter (c : Char) : Printable (escapeJsonCharacter c) ↔ ¬ leaks .json c.toNat := by
  unfold escapeJsonCharacter
  split_ifs with hquote hslash hline hreturn htab hcontrol
  · subst hquote; decide
  · subst hslash; decide
  · subst hline; decide
  · subst hreturn; decide
  · subst htab; decide
  · have hlt : c.toNat < 32 := hcontrol
    have hprintable : Printable ('\\' :: 'u' :: hexPadded 4 c.toNat) :=
      printable_cons.mpr ⟨by decide, printable_cons.mpr ⟨by decide, printable_leftpad (printable_hex _) 4⟩⟩
    have hnot : ¬ leaks .json c.toNat := by
      simp only [leaks, Bool.and_eq_true, decide_eq_true_eq]
      omega
    exact iff_of_true hprintable hnot
  · have hge : ¬ c.toNat < 32 := hcontrol
    rw [printable_cons, isControl, leaks]
    simp [hge]

theorem printable_escapeJson (value : Text) : Printable (escapeJson value) ↔ Clean .json value := by
  induction value with
  | nil => simp [escapeJson, Clean]
  | cons c value ih =>
    rw [escapeJson, List.flatMap_cons, ← escapeJson, printable_append, printable_escapeJsonCharacter, ih, Clean, Clean,
      List.forall_mem_cons]

theorem printable_writeJsonField {name : Text} (hname : Printable name) (value : Text) (first : Bool) :
    Printable (writeJsonField name value first) ↔ Clean .json value := by
  have hcomma : Printable (if first then [] else [',']) := by cases first <;> decide
  have hquote : isControl '"' = false := by decide
  have hcolon : isControl ':' = false := by decide
  rw [writeJsonField]
  simp [printable_append, printable_cons, hcomma, hquote, hcolon, hname, printable_escapeJson]

theorem printable_writeJsonNumber {name : Text} (hname : Printable name) (value : ℕ) :
    Printable (writeJsonNumber name value) := by
  rw [writeJsonNumber, printable_append, printable_append, printable_append]
  exact ⟨⟨⟨by decide, hname⟩, by decide⟩, printable_decimal value⟩

theorem printable_writeJsonBool {name : Text} (hname : Printable name) (value : Bool) :
    Printable (writeJsonBool name value) := by
  have hvalue : Printable (if value then "true".toList else "false".toList) := by
    cases value <;> exact printable_literal rfl (by decide)
  rw [writeJsonBool, printable_append, printable_append, printable_append]
  exact ⟨⟨⟨by decide, hname⟩, by decide⟩, hvalue⟩

theorem Clean.of_printable {text : Text} (h : Printable text) : Clean .json text := by
  intro c hc hleaks
  exact h c hc (by rw [isControl]; exact Bool.or_eq_true_iff.mpr (.inr hleaks))

theorem printable_clientKindJson (kind : ClientKind) : Printable (clientKindJson kind) := by
  cases kind with
  | bareMetal => exact printable_writeJsonBool (printable_literal rfl (by decide)) false
  | virtualMachine => exact printable_writeJsonBool (printable_literal rfl (by decide)) true
  | unrecognised raw => exact printable_writeJsonNumber (printable_literal rfl (by decide)) raw.toNat

theorem printable_sourceJson (peer : Option Peer) : Printable (sourceJson peer) := by
  cases peer with
  | none => decide +kernel
  | some peer =>
    exact printable_append.mpr ⟨(printable_writeJsonField (printable_literal rfl (by decide)) _ false).mpr
      (.of_printable peer.address.printable_display), printable_writeJsonNumber (printable_literal rfl (by decide)) _⟩

theorem printable_clockSkewJson (skew : Option ℕ) : Printable (clockSkewJson skew) := by
  cases skew with
  | none => decide
  | some skew =>
    exact printable_append.mpr ⟨printable_writeJsonNumber (printable_literal rfl (by decide)) _, printable_writeJsonBool (printable_literal rfl (by decide)) _⟩

theorem printable_writeOutcomeJson (outcome : Events.Outcome) : Printable (writeOutcomeJson outcome) := by
  cases outcome with
  | activated activation =>
    have hanomalous : Printable (if activation.anomalousDemand then writeJsonBool "anomalous_demand".toList true else []) := by
      split_ifs <;> decide +kernel
    have hexpired : Printable
        (if 0 < activation.expired then writeJsonNumber "expired".toList activation.expired.toNat else []) := by
      split_ifs
      · exact printable_writeJsonNumber (printable_literal rfl (by decide)) _
      · decide
    refine printable_append.mpr ⟨printable_append.mpr ⟨printable_append.mpr ⟨printable_append.mpr ⟨printable_append.mpr
      ⟨?_, ?_⟩, ?_⟩, ?_⟩, hanomalous⟩, hexpired⟩
    · exact printable_writeJsonNumber (printable_literal rfl (by decide)) _
    · exact printable_writeJsonNumber (printable_literal rfl (by decide)) _
    · exact printable_writeJsonBool (printable_literal rfl (by decide)) _
    · exact printable_writeJsonNumber (printable_literal rfl (by decide)) _
  | refused refusal =>
    refine printable_append.mpr ⟨printable_append.mpr ⟨printable_append.mpr ⟨?_, printable_literal rfl (by decide)⟩,
      printable_hexUpper _ _⟩, by decide⟩
    exact (printable_writeJsonField (printable_literal rfl (by decide)) _ false).mpr (.of_printable refusal.printable_debug)

/-- In a JSON line the texts that are not chosen here are the name of the machine and
what the tables call its product and its application. -/
theorem printable_requestJson (tables : Db.Tables) (event : Event) :
    Printable (requestJson tables event) ↔
      Clean .json event.workstationName.text ∧ Clean .json (productName tables event) ∧
        Clean .json (applicationName tables event) := by
  have hopen : isControl '{' = false := by decide
  have hclose : Printable ['}'] := by decide
  have hlevel : Clean .json Severity.info.name := by decide +kernel
  have hevent : Clean .json (if event.activated then "activation".toList else "refusal".toList) := by
    split_ifs <;> decide +kernel
  have hprotocol : Printable ",\"protocol\":\"".toList := printable_literal rfl (by decide)
  have hpoint : Printable ['.'] ∧ Printable ['"'] := by decide
  have hstatus : Clean .json event.licenseStatus.description := .of_printable event.licenseStatus.printable_description
  have hguid : ∀ guid : Guid, Clean .json guid.display := fun guid => .of_printable guid.printable_display
  delta requestJson
  simp (disch := exact printable_literal rfl (by decide)) only [printable_append, printable_cons, printable_writeJsonField,
    printable_writeJsonNumber, printable_writeJsonBool, printable_decimal, printable_clientKindJson, printable_sourceJson,
    printable_clockSkewJson, printable_writeOutcomeJson, hopen, hclose, hlevel, hevent, hprotocol, hpoint, hstatus, hguid,
    Bool.false_eq_true, not_false_eq_true, true_and, and_true]
  constructor
  · rintro ⟨⟨happlication, hproduct⟩, hname⟩
    exact ⟨hname, hproduct, happlication⟩
  · rintro ⟨hname, hproduct, happlication⟩
    exact ⟨⟨happlication, hproduct⟩, hname⟩

theorem printable_outcomeText (outcome : Events.Outcome) : Printable (Logger.outcomeText outcome) := by
  cases outcome with
  | activated activation =>
    have hfallback : Printable (if activation.selection.wasResolved then [] else " (fallback host key)".toList) := by
      split_ifs <;> decide +kernel
    exact printable_append.mpr ⟨printable_append.mpr ⟨printable_append.mpr ⟨printable_append.mpr ⟨printable_append.mpr
      ⟨printable_literal rfl (by decide), printable_decimal _⟩, printable_literal rfl (by decide)⟩, printable_decimal _⟩,
      printable_literal rfl (by decide)⟩, hfallback⟩
  | refused refusal =>
    exact printable_append.mpr ⟨printable_append.mpr ⟨printable_append.mpr ⟨printable_append.mpr
      ⟨printable_literal rfl (by decide), printable_hexUpper _ _⟩, printable_literal rfl (by decide)⟩, refusal.printable_debug⟩, by decide⟩

/-- In a text line they are the name and the product. -/
theorem printable_requestText (level : LogLevel) (tables : Db.Tables) (event : Event) :
    Printable ((⟨level, .text, false⟩ : Logger).requestText tables event) ↔
      Clean .text event.workstationName.text ∧ Clean .text (productName tables event) := by
  have hlevel : Printable ((⟨level, .text, false⟩ : Logger).writeTextPrefix .info) := by
    show Printable (Severity.info.name ++ [' '])
    decide +kernel
  have hsource : Printable ((event.peer.map fun peer => peer.address.display).getD ['-']) := by
    cases event.peer with
    | none => decide
    | some peer => exact peer.address.printable_display
  have hmarks : Printable [' ', 'v'] ∧ Printable ['.'] ∧ Printable [' '] ∧ Printable [' ', '"'] ∧ Printable ['"'] := by decide
  delta Logger.requestText
  simp only [printable_append, hlevel, hsource, hmarks, printable_outcomeText, printable_decimal,
    event.licenseStatus.printable_description, true_and, and_true]
  rw [clean_text, clean_text, and_comm]

theorem clean_decode (format : LogFormat) (units : Vector UInt16 64) :
    Clean format (WorkstationName.decode units).text ↔
      ∀ unit ∈ units.toList.takeWhile (· ≠ 0), ¬ leaks format unit.toNat := by
  have hlow : ∀ code, leaks format code → code < 0xD800 := by
    intro code h
    cases format <;> simp only [leaks, Bool.or_eq_true, Bool.and_eq_true, decide_eq_true_eq] at h <;> omega
  have hexists := exists_mem_decodeLossy (p := fun code => leaks format code) hlow (units.toList.takeWhile (· ≠ 0))
  rw [WorkstationName.text_decode, Clean, ← not_iff_not]
  push Not
  exact hexists

/-- The lines of a request have no control character exactly when they are filtered
out, or the name up to its first NUL has no unit that the format lets through and
the tables call nothing by such a name. -/
theorem Logger.one_line_iff (level : LogLevel) (format : LogFormat) (tables : Db.Tables) (body : RequestBody)
    (peer : Option Peer) (now : Wire.Instant) (outcome : Events.Outcome) (observations : Observations) (sequence : UInt64) :
    let event := Record.event ⟨.fromBody body, peer, now, outcome, observations⟩ sequence
    (∀ line, (⟨level, format, false⟩ : Logger).formatRequest tables event = some line → Printable line) ↔
      ¬ Severity.info.enabledAt level ∨
        (∀ unit ∈ body.workstationName.toList.takeWhile (· ≠ 0), ¬ leaks format unit.toNat) ∧
          Clean format (productName tables event) ∧ (format = .json → Clean .json (applicationName tables event)) := by
  intro event
  have hname : event.workstationName = .decode body.workstationName := rfl
  by_cases henabled : Severity.info.enabledAt level
  · cases format with
    | json =>
      have hline : (⟨level, .json, false⟩ : Logger).formatRequest tables event = some (requestJson tables event) := by
        rw [formatRequest, enabled, if_pos henabled]
      rw [hline, ← clean_decode, ← hname]
      simp only [Option.some.injEq, forall_eq', henabled, not_true_eq_false, false_or, printable_requestJson, true_implies]
    | text =>
      have hline : (⟨level, .text, false⟩ : Logger).formatRequest tables event =
          some ((⟨level, .text, false⟩ : Logger).requestText tables event) := by
        rw [formatRequest, enabled, if_pos henabled]
      rw [hline, ← clean_decode, ← hname]
      simp only [Option.some.injEq, forall_eq', henabled, not_true_eq_false, false_or, printable_requestText, reduceCtorEq,
        false_implies, and_true]
  · have hline : (⟨level, format, false⟩ : Logger).formatRequest tables event = none := by
      rw [formatRequest, enabled, if_neg henabled]
    simp [hline, henabled]

/-- A body with one unit in its name. -/
def namedBody (unit : UInt16) : RequestBody where
  version := 0x60000
  isClientVm := 0
  licenseStatus := 1
  graceTime := 0
  applicationId := .fromGuid .zero
  skuId := .fromGuid .zero
  kmsCountedId := .fromGuid .zero
  clientMachineId := .fromGuid .zero
  requiredClients := 25
  clientTime := 0
  previousClientMachineId := .fromGuid .zero
  workstationName := (Vector.replicate 64 0).set 0 unit

/-- A name that is a line feed makes two lines of one, and a name that begins an escape
sequence gets through the JSON form. -/
theorem line_feed_in_name :
    let event := fun unit => Record.event ⟨.fromBody (namedBody unit), none, 0, .refused .previewProduct, ⟨false, none, false⟩⟩ 0
    (∃ line, (⟨.info, .text, false⟩ : Logger).formatRequest ⟨[], [], [], []⟩ (event 0x0A) = some line ∧ '\n' ∈ line) ∧
      ∃ line, (⟨.info, .json, false⟩ : Logger).formatRequest ⟨[], [], [], []⟩ (event 0x9B) = some line ∧
        ¬ Printable line := by
  exact ⟨⟨_, rfl, by decide +kernel⟩, ⟨_, rfl, by decide +kernel⟩⟩

end Kmsrs.Server
