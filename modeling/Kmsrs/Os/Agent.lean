import Kmsrs.Lib.JsonSearch
import Kmsrs.Os.Link
import Kmsrs.Server.Display

/-! The guest agent: a line of JSON in, a line out. The reader of the requests is a
search for the text of a member's name, and not a parser. -/

namespace Kmsrs.Os.Agent

open Policy.Access (IpAddr)
open Text

/-- The longest request line that is read. -/
def maxLine : ℕ := 8192

structure Command where
  name : Text
  replies : Bool
deriving DecidableEq

/-- The commands that are answered, and whether each has a reply. -/
def commands : List Command := [
  ⟨"guest-sync".toList, true⟩,
  ⟨"guest-sync-delimited".toList, true⟩,
  ⟨"guest-ping".toList, true⟩,
  ⟨"guest-info".toList, true⟩,
  ⟨"guest-network-get-interfaces".toList, true⟩,
  ⟨"guest-get-osinfo".toList, true⟩,
  ⟨"guest-shutdown".toList, false⟩]

/-- An address on an interface. -/
structure Address where
  index : UInt32
  ip : IpAddr
  prefixLen : UInt8

/-- What replies say of the program and the machine. The interfaces may be
impossible to list; a release that cannot be read is empty. -/
structure Facts where
  version : Text
  arch : Text
  osRelease : Text
  interfaces : Option (List Interface)
  addresses : List Address

/-! ### Reading a request -/

/-- `strip_prefix` of one character. -/
def stripChar (c : Char) : Text → Option Text
  | [] => none
  | first :: rest => if first = c then some rest else none

/-- The text just after `"key" :`, with whitespace skipped. -/
def afterKey (line key : Text) : Option Text := do
  let rest ← behind ('"' :: key ++ ['"']) line
  let rest ← stripChar ':' (trimStart rest)
  some (trimStart rest)

/-- The value of a string member. -/
def stringField (line key : Text) : Option Text := do
  let rest ← stripChar '"' (← afterKey line key)
  if '"' ∈ rest then some (rest.takeWhile (· ≠ '"')) else none

/-- `i64::from_str` on digits and hyphens. -/
def parseI64 (digits : Text) : Option ℤ :=
  let (negative, digits) := if digits.head? = some '-' then (true, digits.tail) else (false, digits)
  let magnitude : ℤ := Nat.ofDigitChars 10 digits 0
  let value := if negative then -magnitude else magnitude
  if digits ≠ [] ∧ digits.all Char.isDigit ∧ -2 ^ 63 ≤ value ∧ value < 2 ^ 63 then some value else none

/-- The value of an integer member. -/
def numberField (line key : Text) : Option ℤ := do
  let rest ← afterKey line key
  parseI64 (rest.takeWhile fun c => c.isDigit || c = '-')

/-- The id a sync request carried, or zero. -/
def syncId (line : Text) : ℤ := (numberField line "id".toList).getD 0

/-! ### Replies -/

def escapeCharacter (c : Char) : Text :=
  if c = '"' then ['\\', '"'] else if c = '\\' then ['\\', '\\'] else if isControl c then [' '] else [c]

/-- Make text safe to put inside a JSON string. -/
def escape (text : Text) : Text := text.flatMap escapeCharacter

/-- `Display` of a signed number. -/
def displayInt (n : ℤ) : Text := if n < 0 then '-' :: decimal n.natAbs else decimal n.natAbs

def errorReply (errorClass description : Text) : Text :=
  ["\x7b\"error\": \x7b\"class\": \"".toList, errorClass, "\", \"desc\": \"".toList, description,
    "\"\x7d\x7d\n".toList].flatten

def notARequest : Text :=
  errorReply "GenericError".toList "not a guest-agent request: no \\\"execute\\\" member".toList

def notSupported (execute : Text) : Text :=
  errorReply "CommandNotFound".toList (escape execute ++ " is not supported by this guest. See docs/deployment.md for ".toList ++
    "why: this is a KMS host, not a general-purpose machine".toList)

def syncReply (id : ℤ) : Text := ["\x7b\"return\": ".toList, displayInt id, "\x7d\n".toList].flatten

def pingReply : Text := "\x7b\"return\": \x7b\x7d\x7d\n".toList

def describeCommand (command : Command) : Text :=
  ["\x7b\"name\": \"".toList, command.name, "\", \"enabled\": true, \"success-response\": ".toList,
    if command.replies then "true".toList else "false".toList, "\x7d".toList].flatten

/-- What a client asks before it decides which commands to offer. -/
def infoReply (facts : Facts) : Text :=
  ["\x7b\"return\": \x7b\"version\": \"".toList, facts.version, "\", \"supported_commands\": [".toList,
    List.intercalate ", ".toList (commands.map describeCommand), "]\x7d\x7d\n".toList].flatten

def osinfoReply (facts : Facts) : Text :=
  ["\x7b\"return\": \x7b\"id\": \"kmsrsos\", \"name\": \"kmsrsos\", ".toList,
    "\"pretty-name\": \"kmsrsos ".toList, facts.version, "\", \"version\": \"".toList, facts.version,
    "\", \"version-id\": \"".toList, facts.version, "\", \"kernel-release\": \"".toList, escape (trim facts.osRelease),
    "\", \"machine\": \"".toList, facts.arch, "\"\x7d\x7d\n".toList].flatten

def describeAddress (address : Address) : Text :=
  let family := match address.ip with
    | .v4 _ => ['i', 'p', 'v', '4']
    | .v6 _ => ['i', 'p', 'v', '6']
  ["\x7b\"ip-address-type\": \"".toList, family, "\", \"ip-address\": \"".toList, address.ip.display,
    "\", \"prefix\": ".toList, decimal address.prefixLen.toNat, "\x7d".toList].flatten

def describeInterface (addresses : List Address) (interface : Interface) : Text :=
  let mac := List.intercalate [':'] (interface.mac.toList.map fun byte => hexPadded 2 byte.toNat)
  ["\x7b\"name\": \"".toList, escape interface.name, "\", \"hardware-address\": \"".toList, mac,
    "\", \"ip-addresses\": [".toList,
    List.intercalate ", ".toList ((addresses.filter (·.index = interface.index)).map describeAddress),
    "]\x7d".toList].flatten

def renderInterfaces (interfaces : List Interface) (addresses : List Address) : Text :=
  ["\x7b\"return\": [".toList, List.intercalate ", ".toList (interfaces.map (describeInterface addresses)),
    "]\x7d\n".toList].flatten

/-- The reply that fills the addresses of the machine's summary. -/
def interfacesReply (facts : Facts) : Text :=
  facts.interfaces.elim (errorReply "GenericError".toList "cannot list interfaces".toList) fun interfaces =>
    renderInterfaces interfaces facts.addresses

/-! ### Answering -/

/-- What an answer comes to: the line to send back, if any, and whether the machine
is shut down. -/
structure Answer where
  reply : Option Text
  shutdown : Bool
deriving DecidableEq

def Answer.say (reply : Text) : Answer := ⟨some reply, false⟩

/-- The answer to a command of the table, with the id for those that send it back. -/
def perform (facts : Facts) (name : Text) (id : ℤ) : Answer :=
  if name = "guest-sync".toList then .say (syncReply id)
  else if name = "guest-sync-delimited".toList then .say ('ÿ' :: syncReply id)
  else if name = "guest-ping".toList then .say pingReply
  else if name = "guest-info".toList then .say (infoReply facts)
  else if name = "guest-get-osinfo".toList then .say (osinfoReply facts)
  else if name = "guest-network-get-interfaces".toList then .say (interfacesReply facts)
  else if name = "guest-shutdown".toList then ⟨none, true⟩
  else .say (errorReply "GenericError".toList "unimplemented".toList)

/-- Turn one request line into the line to send back, if any. -/
def answer (facts : Facts) (line : Text) : Answer :=
  if line = [] then ⟨none, false⟩
  else
    match stringField line "execute".toList with
    | none => .say notARequest
    | some execute =>
      match commands.find? fun command => command.name = execute with
      | none => .say (notSupported execute)
      | some command => perform facts command.name (syncId line)

/-- A line that reads as a shutdown has no reply. -/
theorem answer_shutdown {line : Text} (hline : line ≠ [])
    (hfield : stringField line "execute".toList = some "guest-shutdown".toList) (facts : Facts) :
    answer facts line = ⟨none, true⟩ := by
  have hfind : (commands.find? fun command => command.name = "guest-shutdown".toList) =
      some ⟨"guest-shutdown".toList, false⟩ := by decide +kernel
  rw [answer, if_neg hline, hfield]
  simp only [hfind]
  rfl

end Kmsrs.Os.Agent
