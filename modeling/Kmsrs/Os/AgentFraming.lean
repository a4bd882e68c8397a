import Kmsrs.Lib.JsonSpaced
import Kmsrs.Lib.Utf8
import Kmsrs.Os.AgentCommand

/-! How the guest agent's replies are framed. Every reply is one line, and before its
end an object that has a result or an error, whatever the request and the machine
are called. The delimiter of a sync is written as a character and not as a byte. -/

namespace Kmsrs.Os.Agent

open Json (Quotable IsJson IsMember spacedObject spacedArray quote)
open Text

/-- A line whose text is an object with a single member, of one of two names. -/
def IsReply (reply : Text) : Prop :=
  ∃ body name value, reply = body ++ ['\n'] ∧ '\n' ∉ body ∧ Json.parse body = some (.object [(name, value)]) ∧
    name.text ∈ ["return".toList, "error".toList]

/-- A text of the build, which stands between quotes as it is. -/
def Plain (text : Text) : Prop := ∀ c ∈ text, Json.plain c

instance (text : Text) : Decidable (Plain text) := inferInstanceAs (Decidable (∀ c ∈ text, Json.plain c = true))

theorem quotable_literal {s : String} {text : Text} (hs : s = String.ofList text) (h : ∀ c ∈ text, Json.plain c) :
    Quotable s.toList := by
  subst hs
  rw [String.toList_ofList]
  exact Json.quotable_of_plain h

theorem Plain.quotable {text : Text} (h : Plain text) : Quotable text := Json.quotable_of_plain h

theorem isMember_string {name raw : Text} (hname : Quotable name) (hraw : Quotable raw) : IsMember (name, quote raw) :=
  ⟨hname, Json.isJson_string hraw⟩

/-! ### Escaping -/

theorem quotable_escapeCharacter (c : Char) : Quotable (escapeCharacter c) := by
  unfold escapeCharacter
  split_ifs with hquote hescape hcontrol
  · decide
  · decide
  · decide
  · refine Json.quotable_of_plain (List.forall_mem_singleton.mpr ?_)
    have hlow : ¬ c.toNat < 0x20 := fun hlow => hcontrol (by simp [isControl, hlow])
    simp only [Json.plain, Bool.and_eq_true, decide_eq_true_eq, bne_iff_ne]
    exact ⟨⟨by omega, hquote⟩, hescape⟩

theorem quotable_escape (text : Text) : Quotable (escape text) :=
  Json.quotable_flatMap fun c _ => quotable_escapeCharacter c

/-! ### Numbers -/

theorem isJson_decimal (n : ℕ) : IsJson (decimal n) := Json.isJson_numeral (.ofNat n)

theorem isJson_displayInt (n : ℤ) : IsJson (displayInt n) := by
  rw [displayInt]
  split_ifs with hneg
  · exact Json.isJson_numeral ⟨'-' :: decimal n.natAbs, _, Json.readUnsigned_decimal true n.natAbs⟩
  · exact isJson_decimal n.natAbs

/-! ### Replies -/

theorem isReply_of_member {name text : Text} (hname : name ∈ [['r', 'e', 't', 'u', 'r', 'n'], ['e', 'r', 'r', 'o', 'r']])
    (h : IsJson text) : IsReply (spacedObject [(name, text)] ++ ['\n']) := by
  have hplain : ∀ name ∈ [['r', 'e', 't', 'u', 'r', 'n'], ['e', 'r', 'r', 'o', 'r']],
      Quotable name ∧ Json.decode name = some name := by decide
  have hmember : IsMember (name, text) := ⟨(hplain name hname).1, h⟩
  obtain ⟨members, hnames, hspells⟩ := Json.exists_object (List.forall_mem_singleton.mpr hmember)
  obtain ⟨⟨literal, value⟩, rfl⟩ : ∃ member, members = [member] := by
    rw [← List.length_eq_one_iff, ← List.length_map, hnames]
    rfl
  have hraw : literal.raw = name := by simpa using hnames
  have htext : literal.text = name := by
    have hdecode := literal.decode_raw
    rw [hraw, (hplain name hname).2, Option.some.injEq] at hdecode
    exact hdecode.symm
  refine ⟨_, literal, value, rfl, hspells.not_newline, hspells.parse, ?_⟩
  rw [htext, String.toList_ofList, String.toList_ofList]
  exact hname

/-- The shape of a text that was joined from its parts. -/
theorem errorReply_eq (errorClass description : Text) :
    errorReply errorClass description = spacedObject [(['e', 'r', 'r', 'o', 'r'],
      spacedObject [("class".toList, quote errorClass), ("desc".toList, quote description)])] ++ ['\n'] := by
  unfold errorReply
  repeat rw [String.toList_ofList]
  simp only [spacedObject, Json.spacedMember, quote, Json.separator, List.map_cons, List.map_nil,
    List.intercalate_cons_cons, List.intercalate_singleton, List.flatten_cons, List.flatten_nil, List.cons_append,
    List.nil_append, List.append_assoc, List.append_nil]

theorem isReply_errorReply {errorClass description : Text} (hclass : Quotable errorClass) (hdescription : Quotable description) :
    IsReply (errorReply errorClass description) := by
  rw [errorReply_eq]
  refine isReply_of_member (by decide) (Json.isJson_object ?_)
  rw [List.forall_mem_cons, List.forall_mem_singleton]
  exact ⟨isMember_string (quotable_literal rfl (by decide)) hclass, isMember_string (quotable_literal rfl (by decide)) hdescription⟩

theorem isReply_notARequest : IsReply notARequest := by
  refine isReply_errorReply (quotable_literal rfl (by decide)) ?_
  rw [String.toList_ofList]
  decide

theorem isReply_notSupported (execute : Text) : IsReply (notSupported execute) :=
  isReply_errorReply (quotable_literal rfl (by decide))
    (((quotable_escape execute).append (quotable_literal rfl (by decide))).append (quotable_literal rfl (by decide)))

theorem isReply_syncReply (id : ℤ) : IsReply (syncReply id) := by
  have heq : syncReply id = spacedObject [(['r', 'e', 't', 'u', 'r', 'n'], displayInt id)] ++ ['\n'] := by
    rw [syncReply_eq]
    simp only [spacedObject, Json.spacedMember, quote, List.map_cons, List.map_nil, List.intercalate_singleton,
      List.cons_append, List.nil_append, List.append_assoc]
  rw [heq]
  exact isReply_of_member (by decide) (isJson_displayInt id)

theorem isReply_pingReply : IsReply pingReply := by
  have heq : pingReply = spacedObject [(['r', 'e', 't', 'u', 'r', 'n'], spacedObject [])] ++ ['\n'] := by
    unfold pingReply
    rw [String.toList_ofList]
    simp only [spacedObject, Json.spacedMember, quote, List.map_cons, List.map_nil, List.intercalate_singleton,
      List.intercalate_nil, List.cons_append, List.nil_append]
  rw [heq]
  exact isReply_of_member (by decide) (Json.isJson_object (by simp))

theorem quotable_commands : ∀ command ∈ commands, Quotable command.name := by
  simp only [commands, List.forall_mem_cons, List.not_mem_nil, false_implies, implies_true, and_true]
  refine ⟨?_, ?_, ?_, ?_, ?_, ?_, ?_⟩ <;> exact quotable_literal rfl (by decide)

theorem isJson_describeCommand {command : Command} (h : Quotable command.name) : IsJson (describeCommand command) := by
  have heq : describeCommand command = spacedObject [("name".toList, quote command.name),
      ("enabled".toList, if true then "true".toList else "false".toList),
      ("success-response".toList, if command.replies then "true".toList else "false".toList)] := by
    unfold describeCommand
    repeat rw [String.toList_ofList]
    simp only [spacedObject, Json.spacedMember, quote, Json.separator, List.map_cons, List.map_nil, if_true,
      List.intercalate_cons_cons, List.intercalate_singleton, List.flatten_cons, List.flatten_nil, List.cons_append,
      List.nil_append, List.append_assoc, List.append_nil]
  rw [heq]
  refine Json.isJson_object ?_
  simp only [List.forall_mem_cons, List.not_mem_nil, false_implies, implies_true, and_true]
  exact ⟨isMember_string (quotable_literal rfl (by decide)) h, ⟨quotable_literal rfl (by decide), Json.isJson_bool true⟩,
    quotable_literal rfl (by decide), Json.isJson_bool command.replies⟩

theorem isReply_infoReply {facts : Facts} (hversion : Plain facts.version) : IsReply (infoReply facts) := by
  have heq : infoReply facts = spacedObject [(['r', 'e', 't', 'u', 'r', 'n'], spacedObject [
      ("version".toList, quote facts.version),
      ("supported_commands".toList, spacedArray (commands.map describeCommand))])] ++ ['\n'] := by
    unfold infoReply
    generalize commands.map describeCommand = described
    repeat rw [String.toList_ofList]
    simp only [spacedObject, spacedArray, Json.spacedMember, quote, Json.separator, List.map_cons, List.map_nil,
      List.intercalate_cons_cons, List.intercalate_singleton, List.flatten_cons, List.flatten_nil, List.cons_append,
      List.nil_append, List.append_assoc, List.append_nil]
  rw [heq]
  refine isReply_of_member (by decide) (Json.isJson_object ?_)
  rw [List.forall_mem_cons, List.forall_mem_singleton]
  refine ⟨isMember_string (quotable_literal rfl (by decide)) hversion.quotable, quotable_literal rfl (by decide),
    Json.isJson_array fun text htext => ?_⟩
  obtain ⟨command, hcommand, rfl⟩ := List.mem_map.mp htext
  exact isJson_describeCommand (quotable_commands command hcommand)

theorem isReply_osinfoReply {facts : Facts} (hversion : Plain facts.version) (harch : Plain facts.arch) :
    IsReply (osinfoReply facts) := by
  have heq : osinfoReply facts = spacedObject [(['r', 'e', 't', 'u', 'r', 'n'], spacedObject [
      ("id".toList, quote "kmsrsos".toList), ("name".toList, quote "kmsrsos".toList),
      ("pretty-name".toList, quote ("kmsrsos ".toList ++ facts.version)), ("version".toList, quote facts.version),
      ("version-id".toList, quote facts.version), ("kernel-release".toList, quote (escape (trim facts.osRelease))),
      ("machine".toList, quote facts.arch)])] ++ ['\n'] := by
    unfold osinfoReply
    repeat rw [String.toList_ofList]
    simp only [spacedObject, Json.spacedMember, quote, Json.separator, List.map_cons, List.map_nil,
      List.intercalate_cons_cons, List.intercalate_singleton, List.flatten_cons, List.flatten_nil, List.cons_append,
      List.nil_append, List.append_assoc, List.append_nil]
  rw [heq]
  refine isReply_of_member (by decide) (Json.isJson_object ?_)
  simp only [List.forall_mem_cons, List.not_mem_nil, false_implies, implies_true, and_true]
  have hname : Quotable "kmsrsos".toList := quotable_literal rfl (by decide)
  have hpretty : Quotable ("kmsrsos ".toList ++ facts.version) := (quotable_literal rfl (by decide)).append hversion.quotable
  refine ⟨isMember_string ?_ hname, isMember_string ?_ hname, isMember_string ?_ hpretty,
    isMember_string ?_ hversion.quotable, isMember_string ?_ hversion.quotable,
    isMember_string ?_ (quotable_escape _), isMember_string ?_ harch.quotable⟩ <;>
  exact quotable_literal rfl (by decide)

/-! ### Interfaces -/

theorem plain_digitChar : ∀ digit < 16, Json.plain (Nat.digitChar digit) := by decide

theorem isJson_addressText {family display : Text} (hfamily : Quotable family) (hdisplay : Quotable display) (n : ℕ) :
    IsJson ["\x7b\"ip-address-type\": \"".toList, family, "\", \"ip-address\": \"".toList, display,
      "\", \"prefix\": ".toList, decimal n, "\x7d".toList].flatten := by
  have heq : ["\x7b\"ip-address-type\": \"".toList, family, "\", \"ip-address\": \"".toList, display,
      "\", \"prefix\": ".toList, decimal n, "\x7d".toList].flatten =
        spacedObject [("ip-address-type".toList, quote family), ("ip-address".toList, quote display),
          ("prefix".toList, decimal n)] := by
    repeat rw [String.toList_ofList]
    simp only [spacedObject, Json.spacedMember, quote, Json.separator, List.map_cons, List.map_nil,
      List.intercalate_cons_cons, List.intercalate_singleton, List.flatten_cons, List.flatten_nil, List.cons_append,
      List.nil_append, List.append_assoc, List.append_nil]
  rw [heq]
  refine Json.isJson_object ?_
  simp only [List.forall_mem_cons, List.not_mem_nil, false_implies, implies_true, and_true]
  exact ⟨isMember_string (quotable_literal rfl (by decide)) hfamily,
    isMember_string (quotable_literal rfl (by decide)) hdisplay, quotable_literal rfl (by decide), isJson_decimal n⟩

theorem isJson_describeAddress (address : Address) : IsJson (describeAddress address) := by
  have hdisplay : Quotable address.ip.display :=
    Json.quotable_of_plain (address.ip.forall_mem_display plain_digitChar (by decide) (by decide))
  unfold describeAddress
  refine isJson_addressText ?_ hdisplay _
  split <;> decide

theorem isJson_describeInterface (addresses : List Address) (interface : Interface) :
    IsJson (describeInterface addresses interface) := by
  unfold describeInterface
  generalize hmac : List.intercalate [':'] (interface.mac.toList.map fun byte => hexPadded 2 byte.toNat) = mac
  have hquotable : Quotable mac := by
    rw [← hmac]
    refine Json.quotable_of_plain (forall_mem_intercalate (by decide) fun part hpart => ?_)
    obtain ⟨byte, -, rfl⟩ := List.mem_map.mp hpart
    exact forall_mem_hexPadded plain_digitChar 2 byte.toNat
  have heq : ["\x7b\"name\": \"".toList, escape interface.name, "\", \"hardware-address\": \"".toList, mac,
      "\", \"ip-addresses\": [".toList,
      List.intercalate ", ".toList ((addresses.filter (·.index = interface.index)).map describeAddress),
      "]\x7d".toList].flatten =
        spacedObject [("name".toList, quote (escape interface.name)), ("hardware-address".toList, quote mac),
          ("ip-addresses".toList, spacedArray ((addresses.filter (·.index = interface.index)).map describeAddress))] := by
    repeat rw [String.toList_ofList]
    simp only [spacedObject, spacedArray, Json.spacedMember, quote, Json.separator, List.map_cons, List.map_nil,
      List.intercalate_cons_cons, List.intercalate_singleton, List.flatten_cons, List.flatten_nil, List.cons_append,
      List.nil_append, List.append_assoc, List.append_nil]
  rw [heq]
  refine Json.isJson_object ?_
  simp only [List.forall_mem_cons, List.not_mem_nil, false_implies, implies_true, and_true]
  refine ⟨isMember_string (quotable_literal rfl (by decide)) (quotable_escape _),
    isMember_string (quotable_literal rfl (by decide)) hquotable, quotable_literal rfl (by decide),
    Json.isJson_array fun text htext => ?_⟩
  obtain ⟨address, -, rfl⟩ := List.mem_map.mp htext
  exact isJson_describeAddress address

theorem isReply_interfacesReply (facts : Facts) : IsReply (interfacesReply facts) := by
  unfold interfacesReply
  cases facts.interfaces with
  | none => exact isReply_errorReply (quotable_literal rfl (by decide)) (quotable_literal rfl (by decide))
  | some interfaces =>
    have heq : renderInterfaces interfaces facts.addresses = spacedObject [(['r', 'e', 't', 'u', 'r', 'n'],
        spacedArray (interfaces.map (describeInterface facts.addresses)))] ++ ['\n'] := by
      unfold renderInterfaces
      repeat rw [String.toList_ofList]
      simp only [spacedObject, spacedArray, Json.spacedMember, quote, Json.separator, List.map_cons, List.map_nil,
        List.intercalate_singleton, List.flatten_cons, List.flatten_nil, List.cons_append, List.nil_append,
        List.append_assoc, List.append_nil]
    rw [Option.elim_some, heq]
    refine isReply_of_member (by decide) (Json.isJson_array fun text htext => ?_)
    obtain ⟨interface, -, rfl⟩ := List.mem_map.mp htext
    exact isJson_describeInterface facts.addresses interface

/-! ### Answers -/

def Delimited (line : Text) : Prop := stringField line "execute".toList = some "guest-sync-delimited".toList

instance (line : Text) : Decidable (Delimited line) := inferInstanceAs (Decidable (_ = _))

/-- What is sent back is one reply, and to a delimited sync the byte `0xFF` and the
bytes of the reply to a sync. -/
def Framed (facts : Facts) (line : Text) : Prop :=
  ∃ reply, (answer facts line).reply = some reply ∧
    if Delimited line then
      ∃ undelimited, (perform facts "guest-sync".toList (syncId line)).reply = some undelimited ∧
        toUtf8 reply = 0xFF :: toUtf8 undelimited
    else IsReply reply

theorem exists_reply_perform {facts : Facts} {name : Text} (id : ℤ) (hversion : Plain facts.version)
    (harch : Plain facts.arch) (hdelimited : name ≠ "guest-sync-delimited".toList)
    (hshutdown : name ≠ "guest-shutdown".toList) :
    ∃ reply, (perform facts name id).reply = some reply ∧ IsReply reply := by
  rw [perform, if_neg hdelimited, if_neg hshutdown]
  split_ifs
  · exact ⟨_, rfl, isReply_syncReply id⟩
  · exact ⟨_, rfl, isReply_pingReply⟩
  · exact ⟨_, rfl, isReply_infoReply hversion⟩
  · exact ⟨_, rfl, isReply_osinfoReply hversion harch⟩
  · exact ⟨_, rfl, isReply_interfacesReply facts⟩
  · exact ⟨_, rfl, isReply_errorReply (quotable_literal rfl (by decide)) (quotable_literal rfl (by decide))⟩

theorem exists_reply_answer {facts : Facts} {line : Text} (hline : line ≠ []) (hversion : Plain facts.version)
    (harch : Plain facts.arch) (hdelimited : ¬ Delimited line)
    (hshutdown : stringField line "execute".toList ≠ some "guest-shutdown".toList) :
    ∃ reply, (answer facts line).reply = some reply ∧ IsReply reply := by
  rw [answer, if_neg hline]
  rw [Delimited] at hdelimited
  cases hfield : stringField line "execute".toList with
  | none => exact ⟨_, rfl, isReply_notARequest⟩
  | some execute =>
    rw [hfield, Option.some.injEq] at hdelimited
    rw [hfield, ne_eq, Option.some.injEq] at hshutdown
    cases hfind : commands.find? fun command => command.name = execute with
    | none =>
      simp only [hfind]
      exact ⟨_, rfl, isReply_notSupported execute⟩
    | some command =>
      simp only [hfind]
      have hname := List.find?_some hfind
      obtain rfl : command.name = execute := of_decide_eq_true hname
      exact exists_reply_perform _ hversion harch hdelimited hshutdown

theorem answer_delimited {line : Text} (hline : line ≠ []) (h : Delimited line) (facts : Facts) :
    answer facts line = .say ('ÿ' :: syncReply (syncId line)) := by
  have hfind : (commands.find? fun command => command.name = "guest-sync-delimited".toList) =
      some ⟨"guest-sync-delimited".toList, true⟩ := by decide +kernel
  rw [answer, if_neg hline, show stringField line "execute".toList = _ from h]
  simp only [hfind]
  rfl

/-- The delimiter takes two bytes. -/
theorem toUtf8_delimited (text : Text) : toUtf8 ('ÿ' :: text) = 0xC3 :: 0xBF :: toUtf8 text := by
  rw [toUtf8_cons, show String.utf8EncodeChar 'ÿ' = [0xC3, 0xBF] by decide]
  rfl

theorem not_framed_of_delimited {line : Text} (hline : line ≠ []) (h : Delimited line) (facts : Facts) :
    ¬ Framed facts line := by
  rintro ⟨reply, hreply, hframed⟩
  rw [if_pos h] at hframed
  obtain ⟨undelimited, -, hbytes⟩ := hframed
  rw [answer_delimited hline h, Answer.say, Option.some.injEq] at hreply
  rw [← hreply, toUtf8_delimited, List.cons.injEq] at hbytes
  exact absurd hbytes.1 (by decide)

/-- A request that is not for a shutdown is answered in the right frame just when it
is not a delimited sync. -/
theorem framed_iff {facts : Facts} {line : Text} (hline : line ≠ [])
    (hshutdown : stringField line "execute".toList ≠ some "guest-shutdown".toList) (hversion : Plain facts.version)
    (harch : Plain facts.arch) : Framed facts line ↔ ¬ Delimited line := by
  constructor
  · intro hframed h
    exact not_framed_of_delimited hline h facts hframed
  · intro h
    obtain ⟨reply, hreply, his⟩ := exists_reply_answer hline hversion harch h hshutdown
    refine ⟨reply, hreply, ?_⟩
    rwa [if_neg h]

/-- A line that is no request, on a machine of this version. -/
theorem framed_unreadable :
    Framed ⟨['0', '.', '1', '.', '0'], ['x', '8', '6', '_', '6', '4'], [], none, []⟩ ['?'] ↔ ¬ Delimited ['?'] :=
  framed_iff (by decide) (by decide +kernel) (by decide) (by decide)

theorem delimiter_two_bytes :
    let line : Text := "\x7b\"execute\":\"guest-sync-delimited\",\"arguments\":\x7b\"id\":7\x7d\x7d".toList
    answer sampleFacts line = .say ('ÿ' :: syncReply 7) ∧
      toUtf8 ('ÿ' :: syncReply 7) = 0xC3 :: 0xBF :: toUtf8 (syncReply 7) ∧ ¬ Framed sampleFacts line := by
  have hline : "\x7b\"execute\":\"guest-sync-delimited\",\"arguments\":\x7b\"id\":7\x7d\x7d".toList ≠ [] := by
    decide +kernel
  have hdelimited :
      Delimited "\x7b\"execute\":\"guest-sync-delimited\",\"arguments\":\x7b\"id\":7\x7d\x7d".toList := by
    decide +kernel
  have hid : syncId "\x7b\"execute\":\"guest-sync-delimited\",\"arguments\":\x7b\"id\":7\x7d\x7d".toList = 7 := by
    decide +kernel
  refine ⟨?_, toUtf8_delimited _, not_framed_of_delimited hline hdelimited sampleFacts⟩
  rw [answer_delimited hline hdelimited, hid]

end Kmsrs.Os.Agent
