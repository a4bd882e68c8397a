import Kmsrs.Lib.Duration
import Kmsrs.Lib.JsonTree
import Kmsrs.Server.Config
import Kmsrs.Server.Display

/-! The lines of the log, as JSON or as text. A JSON line is put together by hand;
here it is shown to be an object with a member for each thing that was written. -/

namespace Kmsrs.Server

open Config (LogLevel LogFormat)
open Kms Policy Policy.Events Policy.Gate Text

inductive Severity where
  | error
  | warn
  | info
  | debug
deriving DecidableEq

namespace Severity

def name : Severity → Text
  | .error => "error".toList
  | .warn => "warn".toList
  | .info => "info".toList
  | .debug => "debug".toList

/-- The escape sequence that turns the colour on. -/
def colour : Severity → Text
  | .error => "\x1b[31m".toList
  | .warn => "\x1b[33m".toList
  | .info => "\x1b[32m".toList
  | .debug => "\x1b[36m".toList

def rank : Severity → ℕ
  | .error => 0
  | .warn => 1
  | .info => 2
  | .debug => 3

/-- Whether a line is emitted at the configured level. -/
def enabledAt (severity : Severity) (level : LogLevel) : Bool :=
  let configured := match level with
    | .error => 0
    | .warn => 1
    | .info => 2
    | .debug => 3
  severity.rank ≤ configured

end Severity

structure Logger where
  level : LogLevel
  format : LogFormat
  colour : Bool
deriving DecidableEq

/-! ### Writing JSON -/

def escapeJsonCharacter (c : Char) : Text :=
  if c = '"' then ['\\', '"']
  else if c = '\\' then ['\\', '\\']
  else if c = '\n' then ['\\', 'n']
  else if c = '\r' then ['\\', 'r']
  else if c = '\t' then ['\\', 't']
  else if c < ' ' then '\\' :: 'u' :: hexPadded 4 c.toNat
  else [c]

/-- Escape a text into the body of a JSON string. -/
def escapeJson (value : Text) : Text := value.flatMap escapeJsonCharacter

/-- `"name":"value"`, with the value escaped. -/
def writeJsonField (name value : Text) (first : Bool) : Text :=
  (if first then [] else [',']) ++ '"' :: name ++ ['"', ':', '"'] ++ escapeJson value ++ ['"']

def writeJsonNumber (name : Text) (value : ℕ) : Text := [',', '"'] ++ name ++ ['"', ':'] ++ decimal value

def writeJsonBool (name : Text) (value : Bool) : Text :=
  [',', '"'] ++ name ++ ['"', ':'] ++ if value then "true".toList else "false".toList

/-! ### Names of products -/

/-- The application a request is for, if it is in the table. -/
def applicationName (tables : Db.Tables) (event : Event) : Text :=
  match Sorted.lookup (fun row : Db.Application => Db.rank row.guid) tables.applications (Db.rank event.application) with
  | some row => row.name.toList
  | none => "unknown".toList

/-- The product, or the host key that counts it. -/
def productName (tables : Db.Tables) (event : Event) : Text :=
  match tables.product event.counted with
  | some row => row.description.toList
  | none =>
    match (tables.csvlksCounting event.counted).head?.bind tables.csvlkAt with
    | some csvlk => csvlk.description.toList
    | none => "unknown".toList

/-! ### The line of a request -/

/-- Anything but the two kinds there are is logged raw. -/
def clientKindJson : ClientKind → Text
  | .virtualMachine => writeJsonBool "virtual_machine".toList true
  | .bareMetal => writeJsonBool "virtual_machine".toList false
  | .unrecognised raw => writeJsonNumber "client_kind_raw".toList raw.toNat

def sourceJson : Option Peer → Text
  | some peer =>
    writeJsonField "source_address".toList peer.address.display false ++
      writeJsonNumber "source_port".toList peer.port.toNat
  | none => ",\"source_address\":null".toList

def clockSkewJson : Option ℕ → Text
  | some skew =>
    writeJsonNumber "clock_skew_seconds".toList (Duration.asSecs skew) ++
      writeJsonBool "clock_skewed".toList (clockSkewTolerance < skew)
  | none => []

/-- The response side, which differs by outcome. -/
def writeOutcomeJson : Events.Outcome → Text
  | .activated activation =>
    writeJsonNumber "count".toList activation.reportedCount.toNat ++
      writeJsonNumber "cached".toList activation.cachedCount.toNat ++
      writeJsonBool "host_key_resolved".toList activation.selection.wasResolved ++
      writeJsonNumber "host_key_index".toList activation.selection.index.toNat ++
      (if activation.anomalousDemand then writeJsonBool "anomalous_demand".toList true else []) ++
      if 0 < activation.expired then writeJsonNumber "expired".toList activation.expired.toNat else []
  | .refused refusal =>
    writeJsonField "refusal".toList refusal.debug false ++
      ",\"hresult\":\"0x".toList ++ hexUpper 8 refusal.hresult.toWire.toNat ++ ['"']

def requestJson (tables : Db.Tables) (event : Event) : Text :=
  '{' :: writeJsonField "level".toList Severity.info.name true ++
    writeJsonField "event".toList (if event.activated then "activation".toList else "refusal".toList) false ++
    writeJsonNumber "sequence".toList event.sequence.toNat ++
    ",\"protocol\":\"".toList ++ decimal event.version.major.toNat ++ ['.'] ++ decimal event.version.minor.toNat ++ ['"'] ++
    clientKindJson event.clientKind ++
    writeJsonField "license_status".toList event.licenseStatus.description false ++
    writeJsonField "application".toList event.application.display false ++
    writeJsonField "application_name".toList (applicationName tables event) false ++
    writeJsonField "kms_id".toList event.counted.display false ++
    writeJsonField "product".toList (productName tables event) false ++
    writeJsonBool "known_product".toList event.knownProduct ++
    writeJsonField "client_machine_id".toList event.clientMachineId.display false ++
    writeJsonField "workstation_name".toList event.workstationName.text false ++
    sourceJson event.peer ++ clockSkewJson event.clockSkew ++ writeOutcomeJson event.outcome ++ ['}']

namespace Logger

def enabled (logger : Logger) (severity : Severity) : Bool := severity.enabledAt logger.level

/-- What a text line begins with, coloured or not. -/
def writeTextPrefix (logger : Logger) (severity : Severity) : Text :=
  if logger.colour then severity.colour ++ severity.name ++ "\x1b[0m ".toList else severity.name ++ [' ']

/-- A line about something that is not a request, unless it is filtered out. -/
def formatMessage (logger : Logger) (severity : Severity) (event detail : Text) : Option Text :=
  if logger.enabled severity then
    match logger.format with
    | .json =>
      some ('{' :: writeJsonField "level".toList severity.name true ++ writeJsonField "event".toList event false ++
        writeJsonField "detail".toList detail false ++ ['}'])
    | .text => some (logger.writeTextPrefix severity ++ event ++ [':', ' '] ++ detail)
  else none

/-- What a text line says of the outcome. -/
def outcomeText : Events.Outcome → Text
  | .activated activation =>
    " -> activated, count ".toList ++ decimal activation.reportedCount.toNat ++ " of ".toList ++
      decimal activation.cachedCount.toNat ++ " cached".toList ++
      if activation.selection.wasResolved then [] else " (fallback host key)".toList
  | .refused refusal =>
    " -> refused 0x".toList ++ hexUpper 8 refusal.hresult.toWire.toNat ++ " (".toList ++ refusal.debug ++ [')']

/-- Narrower than the JSON form: what identifies the client and what happened. -/
def requestText (logger : Logger) (tables : Db.Tables) (event : Event) : Text :=
  logger.writeTextPrefix .info ++ ((event.peer.map fun peer => peer.address.display).getD ['-']) ++
    [' ', 'v'] ++ decimal event.version.major.toNat ++ ['.'] ++ decimal event.version.minor.toNat ++ [' '] ++
    productName tables event ++ [' '] ++ event.licenseStatus.description ++ [' ', '"'] ++ event.workstationName.text ++ ['"'] ++
    outcomeText event.outcome

/-- The line of a request, unless it is filtered out. -/
def formatRequest (logger : Logger) (tables : Db.Tables) (event : Event) : Option Text :=
  if logger.enabled .info then
    match logger.format with
    | .json => some (requestJson tables event)
    | .text => some (logger.requestText tables event)
  else none

end Logger

/-! ### What a JSON line is -/

namespace Log

theorem joinSurrogates_cons (c : Char) (units : List ℕ) :
    Json.joinSurrogates (c.toNat :: units) = c :: Json.joinSurrogates units := by
  have hvalid : c.toNat.isValidChar := c.valid
  have hscalar : Json.scalar c.toNat = c := by rw [Json.scalar, if_pos hvalid, Char.ofNat_toNat]
  cases units with
  | nil => exact congrArg (fun character => [character]) hscalar
  | cons trailing rest =>
    rw [Json.joinSurrogates, if_neg, hscalar]
    rintro ⟨⟨hlow, hhigh⟩, -⟩
    simp only [Nat.isValidChar] at hvalid
    omega

theorem joinSurrogates_map (text : Text) : Json.joinSurrogates (text.map Char.toNat) = text := by
  induction text with
  | nil => rfl
  | cons c text ih => rw [List.map_cons, joinSurrogates_cons, ih]

theorem unescape_escapeJsonCharacter (c : Char) (rest : Text) :
    Json.unescape (escapeJsonCharacter c ++ rest) = (Json.unescape rest).map (c.toNat :: ·) := by
  unfold escapeJsonCharacter
  split_ifs with hquote hslash hline hreturn htab hcontrol
  · subst hquote
    cases h : Json.unescape rest <;> simp [Json.unescape, Json.shortEscape, h]
  · subst hslash
    cases h : Json.unescape rest <;> simp [Json.unescape, Json.shortEscape, h]
  · subst hline
    cases h : Json.unescape rest <;> simp [Json.unescape, Json.shortEscape, h]
  · subst hreturn
    cases h : Json.unescape rest <;> simp [Json.unescape, Json.shortEscape, h]
  · subst htab
    cases h : Json.unescape rest <;> simp [Json.unescape, Json.shortEscape, h]
  · have hlt : c.toNat < 32 := hcontrol
    have hall : ∀ n < 32, ∃ a b c d, hexPadded 4 n = [a, b, c, d] ∧ Json.hexUnit a b c d = some n := by
      intro n hn
      exact ⟨'0', '0', Nat.digitChar (n / 16), Nat.digitChar (n % 16), by interval_cases n <;> rfl, by interval_cases n <;> rfl⟩
    obtain ⟨a, b, x, d, hpadded, hunit⟩ := hall c.toNat hlt
    rw [hpadded]
    cases h : Json.unescape rest <;> simp [Json.unescape, hunit, h]
  · have hnot : ¬ (c.toNat < 0x20 ∨ c = '"' ∨ c = '\\') := by
      rintro (hlow | hbad | hbad)
      · exact hcontrol hlow
      · exact hquote hbad
      · exact hslash hbad
    rw [List.singleton_append, Json.unescape.eq_def]
    split <;> simp_all

theorem unescape_escapeJson (value : Text) : Json.unescape (escapeJson value) = some (value.map Char.toNat) := by
  induction value with
  | nil => rfl
  | cons c value ih =>
    rw [escapeJson, List.flatMap_cons, unescape_escapeJsonCharacter, ← escapeJson, ih]
    rfl

/-- What is escaped decodes to what it was. -/
theorem decode_escapeJson (value : Text) : Json.decode (escapeJson value) = some value := by
  rw [Json.decode, unescape_escapeJson, Option.map_some, joinSurrogates_map]

def literal (value : Text) : Json.Literal := ⟨escapeJson value, value, decode_escapeJson value⟩

/-- Members as they are written. -/
def field (name value : Text) : Json.Literal × Json := (literal name, .string (literal value))

def number (name : Text) (value : ℕ) : Json.Literal × Json := (literal name, .number (Json.Numeral.ofNat value))

def bool (name : Text) (value : Bool) : Json.Literal × Json := (literal name, .bool value)

/-- The name of a member stands as it is. -/
def Plain (name : Text) : Prop := escapeJson name = name

instance (name : Text) : Decidable (Plain name) := inferInstanceAs (Decidable (escapeJson name = name))

theorem plain_of_forall {value : Text} (h : ∀ c ∈ value, escapeJsonCharacter c = [c]) : Plain value := by
  rw [Plain, escapeJson, List.flatMap_congr h, List.flatMap_singleton']

theorem plain_literal {s : String} {text : Text} (hs : s = String.ofList text) (h : ∀ c ∈ text, escapeJsonCharacter c = [c]) :
    Plain s.toList := by
  subst hs
  rw [String.toList_ofList]
  exact plain_of_forall h

theorem writeJsonField_first {name : Text} (h : Plain name) (value : Text) :
    writeJsonField name value true = Json.memberText (field name value) := by
  have hname : escapeJson name = name := h
  simp [writeJsonField, Json.memberText, field, Json.render, Json.tokens, Json.Token.spelling, literal, hname]

theorem writeJsonField_further {name : Text} (h : Plain name) (value : Text) :
    writeJsonField name value false = Json.furtherText [field name value] := by
  have hname : escapeJson name = name := h
  simp [writeJsonField, Json.furtherText, Json.memberText, field, Json.render, Json.tokens, Json.Token.spelling,
    literal, hname]

theorem writeJsonNumber_further {name : Text} (h : Plain name) (value : ℕ) :
    writeJsonNumber name value = Json.furtherText [number name value] := by
  have hname : escapeJson name = name := h
  simp [writeJsonNumber, Json.furtherText, Json.memberText, number, Json.render, Json.tokens, Json.Token.spelling,
    literal, hname, Json.Numeral.ofNat]

theorem writeJsonBool_further {name : Text} (h : Plain name) (value : Bool) :
    writeJsonBool name value = Json.furtherText [bool name value] := by
  have hname : escapeJson name = name := h
  cases value <;>
    simp [writeJsonBool, Json.furtherText, Json.memberText, bool, Json.render, Json.tokens, Json.Token.spelling, literal,
      hname]

def clientKindMembers : ClientKind → List (Json.Literal × Json)
  | .virtualMachine => [bool "virtual_machine".toList true]
  | .bareMetal => [bool "virtual_machine".toList false]
  | .unrecognised raw => [number "client_kind_raw".toList raw.toNat]

def sourceMembers : Option Peer → List (Json.Literal × Json)
  | some peer =>
    [field "source_address".toList peer.address.display, number "source_port".toList peer.port.toNat]
  | none => [(literal "source_address".toList, .null)]

def clockSkewMembers : Option ℕ → List (Json.Literal × Json)
  | some skew =>
    [number "clock_skew_seconds".toList (Duration.asSecs skew), bool "clock_skewed".toList (clockSkewTolerance < skew)]
  | none => []

def outcomeMembers : Events.Outcome → List (Json.Literal × Json)
  | .activated activation =>
    [number "count".toList activation.reportedCount.toNat, number "cached".toList activation.cachedCount.toNat,
      bool "host_key_resolved".toList activation.selection.wasResolved,
      number "host_key_index".toList activation.selection.index.toNat] ++
      (if activation.anomalousDemand then [bool "anomalous_demand".toList true] else []) ++
      if 0 < activation.expired then [number "expired".toList activation.expired.toNat] else []
  | .refused refusal =>
    [field "refusal".toList refusal.debug, field "hresult".toList ("0x".toList ++ hexUpper 8 refusal.hresult.toWire.toNat)]

def leadMembers (event : Event) : List (Json.Literal × Json) :=
  [field "event".toList (if event.activated then "activation".toList else "refusal".toList),
    number "sequence".toList event.sequence.toNat,
    field "protocol".toList (decimal event.version.major.toNat ++ ['.'] ++ decimal event.version.minor.toNat)]

def clientMembers (tables : Db.Tables) (event : Event) : List (Json.Literal × Json) :=
  [field "license_status".toList event.licenseStatus.description,
    field "application".toList event.application.display,
    field "application_name".toList (applicationName tables event),
    field "kms_id".toList event.counted.display,
    field "product".toList (productName tables event),
    bool "known_product".toList event.knownProduct,
    field "client_machine_id".toList event.clientMachineId.display,
    field "workstation_name".toList event.workstationName.text]

/-- The members behind `level`. -/
def requestMembers (tables : Db.Tables) (event : Event) : List (Json.Literal × Json) :=
  leadMembers event ++ clientKindMembers event.clientKind ++ clientMembers tables event ++ sourceMembers event.peer ++
    clockSkewMembers event.clockSkew ++ outcomeMembers event.outcome

theorem clientKindJson_eq (kind : ClientKind) : clientKindJson kind = Json.furtherText (clientKindMembers kind) := by
  cases kind with
  | bareMetal => exact writeJsonBool_further (plain_literal rfl (by decide)) false
  | virtualMachine => exact writeJsonBool_further (plain_literal rfl (by decide)) true
  | unrecognised raw => exact writeJsonNumber_further (plain_literal rfl (by decide)) raw.toNat

theorem sourceJson_eq (peer : Option Peer) : sourceJson peer = Json.furtherText (sourceMembers peer) := by
  cases peer with
  | none => decide +kernel
  | some peer =>
    show writeJsonField _ _ _ ++ writeJsonNumber _ _ = _
    rw [writeJsonField_further (plain_literal rfl (by decide)), writeJsonNumber_further (plain_literal rfl (by decide)), ← Json.furtherText_append]
    rfl

theorem clockSkewJson_eq (skew : Option ℕ) : clockSkewJson skew = Json.furtherText (clockSkewMembers skew) := by
  cases skew with
  | none => rfl
  | some skew =>
    show writeJsonNumber _ _ ++ writeJsonBool _ _ = _
    rw [writeJsonNumber_further (plain_literal rfl (by decide)), writeJsonBool_further (plain_literal rfl (by decide)), ← Json.furtherText_append]
    rfl

theorem plain_digitChar : ∀ digit < 16, escapeJsonCharacter (Nat.digitChar digit) = [Nat.digitChar digit] ∧
    escapeJsonCharacter (Nat.digitChar digit).toUpper = [(Nat.digitChar digit).toUpper] := by
  decide

theorem plain_append {before after : Text} (hbefore : Plain before) (hafter : Plain after) : Plain (before ++ after) := by
  rw [Plain, escapeJson, List.flatMap_append]
  exact congrArg₂ (· ++ ·) hbefore hafter

theorem plain_decimal (n : ℕ) : Plain (decimal n) := by
  refine plain_of_forall fun c hc => ?_
  obtain ⟨digit, hlt, rfl⟩ := mem_toDigits (by norm_num) hc
  exact (plain_digitChar digit (by omega)).1

theorem plain_hexUpper (width n : ℕ) : Plain (hexUpper width n) := by
  refine plain_of_forall fun c hc => ?_
  obtain ⟨digit, hdigit, rfl⟩ := List.mem_map.mp hc
  rw [hexPadded, List.leftpad, List.mem_append] at hdigit
  rcases hdigit with hzero | hdigit
  · rw [List.eq_of_mem_replicate hzero]
    decide
  · obtain ⟨digit, hlt, rfl⟩ := mem_toDigits (by norm_num) hdigit
    exact (plain_digitChar digit hlt).2

/-- A text that needs no escape may be written without it. -/
theorem furtherText_plain {name value : Text} (hname : Plain name) (hvalue : Plain value) :
    ',' :: '"' :: name ++ ['"', ':', '"'] ++ value ++ ['"'] = Json.furtherText [field name value] := by
  rw [← writeJsonField_further hname, writeJsonField, show escapeJson value = value from hvalue]
  rfl

theorem writeOutcomeJson_eq (outcome : Events.Outcome) : writeOutcomeJson outcome = Json.furtherText (outcomeMembers outcome) := by
  cases outcome with
  | activated activation =>
    have hanomalous : (if activation.anomalousDemand then writeJsonBool "anomalous_demand".toList true else []) =
        Json.furtherText (if activation.anomalousDemand then [bool "anomalous_demand".toList true] else []) := by
      split_ifs
      · exact writeJsonBool_further (plain_literal rfl (by decide)) true
      · rfl
    have hexpired : (if 0 < activation.expired then writeJsonNumber "expired".toList activation.expired.toNat else []) =
        Json.furtherText (if 0 < activation.expired then [number "expired".toList activation.expired.toNat] else []) := by
      split_ifs
      · exact writeJsonNumber_further (plain_literal rfl (by decide)) _
      · rfl
    show writeJsonNumber _ _ ++ writeJsonNumber _ _ ++ writeJsonBool _ _ ++ writeJsonNumber _ _ ++ _ ++ _ = _
    rw [hanomalous, hexpired, writeJsonNumber_further (plain_literal rfl (by decide)), writeJsonNumber_further (plain_literal rfl (by decide)),
      writeJsonBool_further (plain_literal rfl (by decide)), writeJsonNumber_further (plain_literal rfl (by decide)), ← Json.furtherText_append,
      ← Json.furtherText_append, ← Json.furtherText_append, ← Json.furtherText_append, ← Json.furtherText_append]
    rfl
  | refused refusal =>
    have hhex : Plain ("0x".toList ++ hexUpper 8 refusal.hresult.toWire.toNat) :=
      plain_append (plain_literal rfl (by decide)) (plain_hexUpper _ _)
    have hsplit : ",\"hresult\":\"0x".toList = ',' :: '"' :: "hresult".toList ++ ['"', ':', '"'] ++ "0x".toList := by
      decide +kernel
    have hresult := furtherText_plain (show Plain "hresult".toList from plain_literal rfl (by decide)) hhex
    rw [← List.append_assoc, ← hsplit] at hresult
    show writeJsonField _ _ _ ++ ",\"hresult\":\"0x".toList ++ hexUpper 8 refusal.hresult.toWire.toNat ++ ['"'] = _
    rw [writeJsonField_further (plain_literal rfl (by decide)), List.append_assoc, List.append_assoc, ← List.append_assoc _ _ ['"'],
      hresult, ← Json.furtherText_append]
    rfl

theorem furtherText_cons (member next : Json.Literal × Json) (members : List (Json.Literal × Json)) :
    Json.furtherText (member :: next :: members) = Json.furtherText [member] ++ Json.furtherText (next :: members) :=
  Json.furtherText_append [member] (next :: members)

/-- The line of a request is an object. -/
theorem requestJson_eq (tables : Db.Tables) (event : Event) :
    requestJson tables event =
      (Json.object (field "level".toList Severity.info.name :: requestMembers tables event)).render := by
  have hprotocol : Plain (decimal event.version.major.toNat ++ ['.'] ++ decimal event.version.minor.toNat) :=
    plain_append (plain_append (plain_decimal _) (plain_of_forall (by decide))) (plain_decimal _)
  have hversion := furtherText_plain (show Plain "protocol".toList from plain_literal rfl (by decide)) hprotocol
  have hsplit : ",\"protocol\":\"".toList = ',' :: '"' :: "protocol".toList ++ ['"', ':', '"'] := by decide +kernel
  rw [← hsplit] at hversion
  rw [Json.render_object, ← writeJsonField_first (plain_literal rfl (by decide)), requestMembers, leadMembers, clientMembers]
  simp only [Json.furtherText_append, furtherText_cons, ← clientKindJson_eq, ← sourceJson_eq, ← clockSkewJson_eq,
    ← writeOutcomeJson_eq, ← hversion]
  delta requestJson
  simp (disch := exact plain_literal rfl (by decide)) only [writeJsonField_further, writeJsonNumber_further, writeJsonBool_further,
    List.append_assoc, List.cons_append]

/-! ### The members of a line -/

/-- The names of the request side, in their order. -/
def requestNames : List Text :=
  ["level".toList, "event".toList, "sequence".toList, "protocol".toList] ++
    ["virtual_machine".toList, "client_kind_raw".toList] ++
    ["license_status".toList, "application".toList, "application_name".toList, "kms_id".toList, "product".toList,
      "known_product".toList, "client_machine_id".toList, "workstation_name".toList] ++
    ["source_address".toList, "source_port".toList] ++ ["clock_skew_seconds".toList, "clock_skewed".toList]

def activatedNames : List Text :=
  ["count".toList, "cached".toList, "host_key_resolved".toList, "host_key_index".toList] ++
    ["anomalous_demand".toList] ++ ["expired".toList]

def refusedNames : List Text := ["refusal".toList, "hresult".toList]

def outcomeNames : Events.Outcome → List Text
  | .activated _ => activatedNames
  | .refused _ => refusedNames

theorem nodup_names (outcome : Events.Outcome) : (requestNames ++ outcomeNames outcome).Nodup := by
  cases outcome with
  | activated activation => exact (by decide +kernel : (requestNames ++ activatedNames).Nodup)
  | refused refusal => exact (by decide +kernel : (requestNames ++ refusedNames).Nodup)

def memberNames (members : List (Json.Literal × Json)) : List Text := members.map fun member => member.1.text

theorem memberNames_sublist (tables : Db.Tables) (event : Event) :
    (memberNames (field "level".toList Severity.info.name :: requestMembers tables event)).Sublist (requestNames ++ outcomeNames event.outcome) := by
  have hkind : ∀ kind, (memberNames (clientKindMembers kind)).Sublist
      ["virtual_machine".toList, "client_kind_raw".toList] := by
    intro kind
    cases kind with
    | bareMetal => exact .cons_cons _ (.cons _ .slnil)
    | virtualMachine => exact .cons_cons _ (.cons _ .slnil)
    | unrecognised raw => exact .cons _ (.refl _)
  have hsource : ∀ peer, (memberNames (sourceMembers peer)).Sublist ["source_address".toList, "source_port".toList] := by
    intro peer
    cases peer with
    | none => exact .cons_cons _ (.cons _ .slnil)
    | some peer => exact .refl _
  have hskew : ∀ skew, (memberNames (clockSkewMembers skew)).Sublist
      ["clock_skew_seconds".toList, "clock_skewed".toList] := by
    intro skew
    cases skew with
    | none => exact List.nil_sublist _
    | some skew => exact .refl _
  have houtcome : ∀ outcome, (memberNames (outcomeMembers outcome)).Sublist (outcomeNames outcome) := by
    intro outcome
    cases outcome with
    | refused refusal => exact .refl _
    | activated activation =>
      rw [outcomeMembers, memberNames, List.map_append, List.map_append]
      refine .append (.append (.refl _) ?_) ?_
      · split_ifs
        · exact .refl _
        · exact List.nil_sublist _
      · split_ifs
        · exact .refl _
        · exact List.nil_sublist _
  rw [requestNames, requestMembers, leadMembers, clientMembers, memberNames, List.map_cons]
  simp only [List.map_append, ← List.cons_append]
  exact .append (.append (.append (.append (.append (.refl _) (hkind _)) (.refl _)) (hsource _)) (hskew _)) (houtcome _)

theorem nodup_memberNames (tables : Db.Tables) (event : Event) :
    (memberNames (field "level".toList Severity.info.name :: requestMembers tables event)).Nodup :=
  (nodup_names event.outcome).sublist (memberNames_sublist tables event)

end Log

/-- The members of a line decode to what happened. -/
structure Carries (members : List (Json.Literal × Json)) (event : Event) : Prop where
  workstationName : (Json.member? members "workstation_name".toList).bind Json.text? = some event.workstationName.text
  application : ((Json.member? members "application".toList).bind Json.text?).bind (Db.parseGuid ∘ String.ofList) =
    some event.application
  kmsId : ((Json.member? members "kms_id".toList).bind Json.text?).bind (Db.parseGuid ∘ String.ofList) = some event.counted
  clientMachineId : ((Json.member? members "client_machine_id".toList).bind Json.text?).bind
    (Db.parseGuid ∘ String.ofList) = some event.clientMachineId
  sequence : (Json.member? members "sequence".toList).bind Json.number? = some (event.sequence.toNat : ℚ)
  count : (Json.member? members "count".toList).bind Json.number? =
    event.outcome.activation?.map fun activation => (activation.reportedCount.toNat : ℚ)
  cached : (Json.member? members "cached".toList).bind Json.number? =
    event.outcome.activation?.map fun activation => (activation.cachedCount.toNat : ℚ)

namespace Log

theorem text_of_field {members : List (Json.Literal × Json)} (hnodup : (memberNames members).Nodup) {name value : Text}
    (h : field name value ∈ members) : (Json.member? members name).bind Json.text? = some value := by
  have hfound : Json.member? members name = some (.string (literal value)) := Json.member?_of_mem hnodup h
  rw [hfound]
  rfl

theorem number_of_number {members : List (Json.Literal × Json)} (hnodup : (memberNames members).Nodup) {name : Text}
    {value : ℕ} (h : number name value ∈ members) : (Json.member? members name).bind Json.number? = some (value : ℚ) := by
  have hfound : Json.member? members name = some (.number (.ofNat value)) := Json.member?_of_mem hnodup h
  rw [hfound]
  exact congrArg some (Json.Numeral.value_ofNat value)

theorem carries_requestMembers (tables : Db.Tables) (event : Event) :
    Carries (field "level".toList Severity.info.name :: requestMembers tables event) event := by
  have hnodup := nodup_memberNames tables event
  have hnames := memberNames_sublist tables event
  have hlead : leadMembers event ⊆ field "level".toList Severity.info.name :: requestMembers tables event := by
    intro member h
    simp [requestMembers, h]
  have hclient : clientMembers tables event ⊆ field "level".toList Severity.info.name :: requestMembers tables event := by
    intro member h
    simp [requestMembers, h]
  have houtcome : outcomeMembers event.outcome ⊆
      field "level".toList Severity.info.name :: requestMembers tables event := by
    intro member h
    simp [requestMembers, h]
  generalize field "level".toList Severity.info.name :: requestMembers tables event = members at *
  have htext : ∀ {i : ℕ} {name value : Text}, (clientMembers tables event)[i]? = some (field name value) →
      (Json.member? members name).bind Json.text? = some value :=
    fun h => text_of_field hnodup (hclient (List.mem_of_getElem? h))
  have hguid : ∀ {i : ℕ} {name : Text} {guid : Guid}, (clientMembers tables event)[i]? = some (field name guid.display) →
      ((Json.member? members name).bind Json.text?).bind (Db.parseGuid ∘ String.ofList) = some guid := by
    intro i name guid h
    rw [htext h, Option.bind_some, Function.comp_apply, Guid.parseGuid_display]
  have hcounts : ∀ {i : ℕ} {name : Text} {value : Activation → ℕ},
      (∀ activation, (outcomeMembers (.activated activation))[i]? = some (number name (value activation))) →
      name ∉ requestNames ++ refusedNames →
      (Json.member? members name).bind Json.number? =
        event.outcome.activation?.map fun activation => (value activation : ℚ) := by
    intro i name value hmember hnot
    cases houtcomes : event.outcome with
    | activated activation =>
      rw [houtcomes] at houtcome
      exact number_of_number hnodup (houtcome (List.mem_of_getElem? (hmember activation)))
    | refused refusal =>
      rw [houtcomes] at hnames
      rw [Json.member?_eq_none fun hmem => hnot (hnames.subset hmem)]
      rfl
  exact {
    workstationName := htext (i := 7) rfl
    application := hguid (i := 1) rfl
    kmsId := hguid (i := 3) rfl
    clientMachineId := hguid (i := 6) rfl
    sequence := number_of_number hnodup (hlead (List.mem_of_getElem? (i := 1) rfl))
    count := hcounts (i := 0) (fun _ => rfl) (by decide +kernel)
    cached := hcounts (i := 1) (fun _ => rfl) (by decide +kernel) }

theorem requestJson_parses (tables : Db.Tables) (event : Event) :
    Json.parse (requestJson tables event) =
      some (.object (field "level".toList Severity.info.name :: requestMembers tables event)) := by
  rw [requestJson_eq, Json.parse_render]

/-- The members of a line that is not about a request. -/
def messageMembers (severity : Severity) (event detail : Text) : List (Json.Literal × Json) :=
  [field "level".toList severity.name, field "event".toList event, field "detail".toList detail]

theorem messageJson_eq (severity : Severity) (event detail : Text) :
    '{' :: writeJsonField "level".toList severity.name true ++ writeJsonField "event".toList event false ++
        writeJsonField "detail".toList detail false ++ ['}'] =
      (Json.object (messageMembers severity event detail)).render := by
  rw [messageMembers, Json.render_object, furtherText_cons, writeJsonField_first (plain_literal rfl (by decide)),
    writeJsonField_further (plain_literal rfl (by decide)), writeJsonField_further (plain_literal rfl (by decide)), ← List.append_assoc]

end Log

/-- A line is one object with members of different names, and no control character
stands in it below the space. -/
def OneObject (line : Text) (holds : List (Json.Literal × Json) → Prop) : Prop :=
  (∀ c ∈ line, 0x20 ≤ c.toNat) ∧
    ∃ members, Json.parse line = some (.object members) ∧ (Log.memberNames members).Nodup ∧ holds members

theorem OneObject.unique {line : Text} {first second : List (Json.Literal × Json) → Prop} (hfirst : OneObject line first)
    (hsecond : OneObject line second) : ∃ members, first members ∧ second members := by
  obtain ⟨-, members, hparse, -, hholds⟩ := hfirst
  obtain ⟨-, members', hparse', -, hholds'⟩ := hsecond
  rw [hparse, Option.some.injEq, Json.object.injEq] at hparse'
  exact ⟨members, hholds, hparse' ▸ hholds'⟩

namespace Logger

variable {logger : Logger} {tables : Db.Tables} {line : Text}

theorem formatRequest_oneObject (hformat : logger.format = .json) {event : Event}
    (h : logger.formatRequest tables event = some line) : OneObject line fun members => Carries members event := by
  obtain ⟨-, h⟩ := Option.ite_none_right_eq_some.mp h
  rw [hformat, Option.some.injEq] at h
  subst h
  refine ⟨?_, _, Log.requestJson_parses tables event, Log.nodup_memberNames tables event,
    Log.carries_requestMembers tables event⟩
  rw [Log.requestJson_eq]
  exact Json.visible_render _

theorem formatMessage_oneObject (hformat : logger.format = .json) {severity : Severity} {event detail : Text}
    (h : logger.formatMessage severity event detail = some line) :
    OneObject line fun members => (Json.member? members "detail".toList).bind Json.text? = some detail := by
  obtain ⟨-, h⟩ := Option.ite_none_right_eq_some.mp h
  rw [hformat, Option.some.injEq] at h
  subst h
  rw [Log.messageJson_eq]
  have hnodup : (Log.memberNames (Log.messageMembers severity event detail)).Nodup := by
    show ["level".toList, "event".toList, "detail".toList].Nodup
    decide +kernel
  exact ⟨Json.visible_render _, _, Json.parse_render _, hnodup, Log.text_of_field hnodup (List.mem_of_getElem? (i := 2) rfl)⟩

end Logger

/-- Members that carry two events carry one. -/
theorem Carries.eq {members : List (Json.Literal × Json)} {a b : Event} (ha : Carries members a) (hb : Carries members b) :
    a.workstationName = b.workstationName ∧ a.application = b.application ∧ a.counted = b.counted ∧
      a.clientMachineId = b.clientMachineId ∧ a.sequence = b.sequence ∧
      (a.outcome.activation?.map fun activation => (activation.reportedCount, activation.cachedCount)) =
        b.outcome.activation?.map fun activation => (activation.reportedCount, activation.cachedCount) := by
  refine ⟨?_, ?_, ?_, ?_, ?_, ?_⟩
  · have htext := Option.some.inj (ha.workstationName.symm.trans hb.workstationName)
    generalize a.workstationName = name, b.workstationName = name' at htext ⊢
    cases name
    cases name'
    simpa using htext
  · exact Option.some.inj (ha.application.symm.trans hb.application)
  · exact Option.some.inj (ha.kmsId.symm.trans hb.kmsId)
  · exact Option.some.inj (ha.clientMachineId.symm.trans hb.clientMachineId)
  · have hsequence := Option.some.inj (ha.sequence.symm.trans hb.sequence)
    exact UInt64.toNat_inj.mp (Nat.cast_injective hsequence)
  · have hcount := ha.count.symm.trans hb.count
    have hcached := ha.cached.symm.trans hb.cached
    cases ha' : a.outcome.activation? <;> cases hb' : b.outcome.activation? <;> simp_all [UInt32.toNat_inj]

/-- A JSON line is one object from which what it was written from can be read, and so
lines from what differs are different. -/
theorem Logger.json_lines_faithful (logger : Logger) (tables : Db.Tables) (hformat : logger.format = .json) :
    (∀ event line, logger.formatRequest tables event = some line → OneObject line fun members => Carries members event) ∧
      (∀ severity tag detail line, logger.formatMessage severity tag detail = some line →
        OneObject line fun members => (Json.member? members "detail".toList).bind Json.text? = some detail) ∧
      (∀ a b line, logger.formatRequest tables a = some line → logger.formatRequest tables b = some line →
        a.workstationName = b.workstationName ∧ a.application = b.application ∧ a.counted = b.counted ∧
          a.clientMachineId = b.clientMachineId ∧ a.sequence = b.sequence ∧
          (a.outcome.activation?.map fun activation => (activation.reportedCount, activation.cachedCount)) =
            b.outcome.activation?.map fun activation => (activation.reportedCount, activation.cachedCount)) ∧
      ∀ severity severity' tag tag' detail detail' line, logger.formatMessage severity tag detail = some line →
        logger.formatMessage severity' tag' detail' = some line → detail = detail' := by
  refine ⟨fun event line => formatRequest_oneObject hformat, fun severity tag detail line => formatMessage_oneObject hformat,
    fun a b line ha hb => ?_, fun severity severity' tag tag' detail detail' line h h' => ?_⟩
  · obtain ⟨members, hcarries, hcarries'⟩ := (formatRequest_oneObject hformat ha).unique (formatRequest_oneObject hformat hb)
    exact hcarries.eq hcarries'
  · obtain ⟨members, hdetail, hdetail'⟩ :=
      (formatMessage_oneObject hformat h).unique (formatMessage_oneObject hformat h')
    exact Option.some.inj (hdetail.symm.trans hdetail')

/-- A machine that calls itself by the end of an object and the beginning of a line. -/
def forgingEvent : Event where
  sequence := 7
  atTime := 0
  peer := none
  version := ⟨6, 0⟩
  application := .zero
  counted := .zero
  sku := .zero
  clientMachineId := .zero
  licenseStatus := .licensed
  clientKind := .bareMetal
  workstationName := ⟨"\"\x7d\n\x7b\"level\":\"error\"\x7d".toList, by decide +kernel⟩
  clockSkew := none
  knownProduct := false
  outcome := .refused .previewProduct

theorem forgingEvent_one_object :
    ∃ line, (⟨.info, .json, false⟩ : Logger).formatRequest ⟨[], [], [], []⟩ forgingEvent = some line ∧
      OneObject line fun members => Carries members forgingEvent :=
  ⟨_, rfl, (Logger.json_lines_faithful ⟨.info, .json, false⟩ ⟨[], [], [], []⟩ rfl).1 forgingEvent _ rfl⟩

end Kmsrs.Server
