import Kmsrs.Os.AgentReading

/-! Which command is obeyed. The agent means to obey the command an object names, and
obeys the one that its search finds. -/

namespace Kmsrs.Os.Agent

open Json (Token Literal lex)
open Text

/-- The members of an object that are under its own name. -/
def own (members : List (Literal × Json)) : Option Text := (Json.member? members "execute".toList).bind Json.text?

def arguments (members : List (Literal × Json)) : List (Literal × Json) :=
  match Json.member? members "arguments".toList with
  | some (.object members) => members
  | _ => []

/-- The id of the arguments, or zero. -/
def ownId (members : List (Literal × Json)) : ℚ := ((Json.member? (arguments members) "id".toList).bind Json.number?).getD 0

/-- The commands whose reply sends the id back. -/
def syncs : List Text := ["guest-sync".toList, "guest-sync-delimited".toList]

def Refused (answer : Answer) : Prop := ∃ errorClass description, answer = .say (errorReply errorClass description)

/-- Whatever the machine is, the answer is a refusal or that to the command of the object
itself, and a sync has the id of its arguments. -/
def Obeys (line : Text) (members : List (Literal × Json)) : Prop :=
  ∀ facts, Refused (answer facts line) ∨
    ∃ command ∈ commands, own members = some command.name ∧
      ∃ id : ℤ, answer facts line = perform facts command.name id ∧ (command.name ∈ syncs → (id : ℚ) = ownId members)

/-- If the string behind the first `execute` is a command, it is that of the object, and
if that is a sync, the number behind the first `id` is the id of its arguments. -/
def Agrees (tokens : List Token) (members : List (Literal × Json)) : Prop :=
  ∀ command ∈ commands, named tokens = some command.name →
    own members = some command.name ∧ (command.name ∈ syncs → (carried tokens : ℚ) = ownId members)

/-! ### What is answered -/

/-- A name in the table is spelled as it is, and found where it stands. -/
theorem commands_spec : ∀ command ∈ commands, '\\' ∉ command.name ∧
    (commands.find? fun other => other.name = command.name) = some command := by
  decide +kernel

/-- A text is answered with a refusal or as the command it is taken for. -/
theorem answer_of_lex {line : Text} {tokens : List Token} (h : lex line = some tokens) (hne : tokens ≠ []) (facts : Facts) :
    ((∀ command ∈ commands, named tokens ≠ some command.name) ∧ Refused (answer facts line)) ∨
      ∃ command ∈ commands, named tokens = some command.name ∧
        answer facts line = perform facts command.name (carried tokens) := by
  have hline : line ≠ [] := by
    rintro rfl
    exact hne (Option.some.inj h).symm
  rw [answer, if_neg hline]
  by_cases hnamed : ∃ command ∈ commands, named tokens = some command.name
  · obtain ⟨command, hmem, hnamed⟩ := hnamed
    refine .inr ⟨command, hmem, hnamed, ?_⟩
    rw [(stringField_eq_some_iff h (commands_spec command hmem).1).mpr hnamed]
    simp only [(commands_spec command hmem).2, syncId_eq_carried h]
  · push Not at hnamed
    refine .inl ⟨hnamed, ?_⟩
    cases hfield : stringField line "execute".toList with
    | none => exact ⟨_, _, rfl⟩
    | some execute =>
      have hfind : (commands.find? fun command => command.name = execute) = none := by
        rw [List.find?_eq_none]
        intro command hmem heq
        obtain rfl := of_decide_eq_true heq
        exact hnamed command hmem ((stringField_eq_some_iff h (commands_spec command hmem).1).mp hfield)
      simp only [hfind]
      exact ⟨_, _, rfl⟩

/-! ### An answer tells its command -/

/-- A machine that can list its interfaces. -/
def sampleFacts : Facts := ⟨[], [], [], some [], []⟩

/-- The place in the table of the command that a reply is to, by how the reply begins. -/
def kindOfReply (reply : Text) : ℕ :=
  if reply.head? = some 'ÿ' then 1
  else if reply[11]? = some '[' then 4
  else if reply[11]? = some '"' then 7
  else if reply[11]? = some '{' then
    if reply[13]? = some '}' then 2 else if reply[13]? = some 'v' then 3 else 5
  else 0

def kind (answer : Answer) : ℕ := answer.reply.elim 6 kindOfReply

/-- A reply is told by its first literal, if that is long enough. -/
theorem kindOfReply_flatten {s : String} {front : Text} {pieces : List Text} (hs : s = String.ofList front)
    (hfront : 14 ≤ front.length) : kindOfReply (s.toList :: pieces).flatten = kindOfReply front := by
  subst hs
  rw [String.toList_ofList, List.flatten_cons]
  have hhead : (front ++ pieces.flatten).head? = front.head? :=
    List.head?_append_of_ne_nil _ (List.ne_nil_of_length_pos (by omega))
  have h11 : (front ++ pieces.flatten)[11]? = front[11]? := List.getElem?_append_left (by omega)
  have h13 : (front ++ pieces.flatten)[13]? = front[13]? := List.getElem?_append_left (by omega)
  rw [kindOfReply, kindOfReply, hhead, h11, h13]

theorem kindOfReply_errorReply (errorClass description : Text) : kindOfReply (errorReply errorClass description) = 7 :=
  Eq.trans (kindOfReply_flatten rfl (by decide)) (by decide)

theorem kindOfReply_infoReply (facts : Facts) : kindOfReply (infoReply facts) = 3 :=
  Eq.trans (kindOfReply_flatten rfl (by decide)) (by decide)

theorem kindOfReply_osinfoReply (facts : Facts) : kindOfReply (osinfoReply facts) = 5 :=
  Eq.trans (kindOfReply_flatten rfl (by decide)) (by decide)

theorem kindOfReply_pingReply : kindOfReply pingReply = 2 := by
  unfold pingReply
  rw [String.toList_ofList]
  decide

theorem kindOfReply_interfacesReply : kindOfReply (interfacesReply sampleFacts) = 4 := by
  have hreply : interfacesReply sampleFacts = "\x7b\"return\": []\x7d\n".toList := by decide +kernel
  rw [hreply, String.toList_ofList]
  decide

theorem displayInt_eq_cons (id : ℤ) : ∃ c rest, displayInt id = c :: rest ∧ inInteger c := by
  rw [displayInt]
  split_ifs
  · exact ⟨'-', _, rfl, rfl⟩
  · obtain ⟨c, rest, hcons⟩ := List.exists_cons_of_ne_nil (show decimal id.natAbs ≠ [] from Nat.toDigits_ne_nil)
    refine ⟨c, rest, hcons, ?_⟩
    have hdigit : c.isDigit := Nat.isDigit_of_mem_toDigits (by norm_num) le_rfl (show c ∈ decimal id.natAbs by simp [hcons])
    simp [inInteger, hdigit]

theorem syncReply_eq (id : ℤ) : syncReply id =
    ['{', '"', 'r', 'e', 't', 'u', 'r', 'n', '"', ':', ' '] ++ (displayInt id ++ ['}', '\n']) := by
  unfold syncReply
  rw [String.toList_ofList, String.toList_ofList]
  simp only [List.flatten_cons, List.flatten_nil, List.append_nil]

theorem kindOfReply_syncReply (id : ℤ) : kindOfReply (syncReply id) = 0 := by
  obtain ⟨c, rest, hdisplay, hc⟩ := displayInt_eq_cons id
  have hopen : ∀ c ∈ ['[', '{', '"'], ¬ inInteger c := by decide
  have hne : c ≠ '[' ∧ c ≠ '{' ∧ c ≠ '"' := by
    refine ⟨?_, ?_, ?_⟩ <;>
    · rintro rfl
      exact hopen _ (by decide) hc
  rw [syncReply_eq, hdisplay, kindOfReply]
  simp [hne]

theorem kind_perform {command : Command} (h : command ∈ commands) (id : ℤ) :
    commands[kind (perform sampleFacts command.name id)]? = some command := by
  have hsync : kind (.say (syncReply id)) = 0 := kindOfReply_syncReply id
  have hdelimited : kind (.say ('ÿ' :: syncReply id)) = 1 := by simp [kind, Answer.say, kindOfReply]
  have hinterfaces : kind (.say (interfacesReply sampleFacts)) = 4 := kindOfReply_interfacesReply
  have hinfo : kind (.say (infoReply sampleFacts)) = 3 := kindOfReply_infoReply sampleFacts
  have hosinfo : kind (.say (osinfoReply sampleFacts)) = 5 := kindOfReply_osinfoReply sampleFacts
  have hping : kind (.say pingReply) = 2 := kindOfReply_pingReply
  simp only [commands, List.mem_cons, List.not_mem_nil, or_false] at h
  rcases h with rfl | rfl | rfl | rfl | rfl | rfl | rfl
  · rw [show perform sampleFacts "guest-sync".toList id = .say (syncReply id) from rfl, hsync]
    rfl
  · rw [show perform sampleFacts "guest-sync-delimited".toList id = .say ('ÿ' :: syncReply id) from rfl, hdelimited]
    rfl
  · rw [show perform sampleFacts "guest-ping".toList id = .say pingReply from rfl, hping]
    rfl
  · rw [show perform sampleFacts "guest-info".toList id = .say (infoReply sampleFacts) from rfl, hinfo]
    rfl
  · rw [show perform sampleFacts "guest-network-get-interfaces".toList id = .say (interfacesReply sampleFacts) from rfl,
      hinterfaces]
    rfl
  · rw [show perform sampleFacts "guest-get-osinfo".toList id = .say (osinfoReply sampleFacts) from rfl, hosinfo]
    rfl
  · rfl

theorem not_refused_perform {command : Command} (h : command ∈ commands) (id : ℤ) :
    ¬ Refused (perform sampleFacts command.name id) := by
  rintro ⟨errorClass, description, heq⟩
  have hkind := kind_perform h id
  rw [heq, show kind (.say (errorReply errorClass description)) = 7 from kindOfReply_errorReply errorClass description] at hkind
  cases hkind

theorem decimal_injective : Function.Injective decimal := by
  intro n m h
  rw [← Nat.ofDigitChars_ten_toDigits (n := n), ← Nat.ofDigitChars_ten_toDigits (n := m)]
  exact congrArg (fun digits => Nat.ofDigitChars 10 digits 0) h

theorem displayInt_injective : Function.Injective displayInt := by
  intro i j h
  have hdigits : ∀ n, '-' ∉ decimal n := fun n hmem =>
    absurd (Nat.isDigit_of_mem_toDigits (by norm_num) le_rfl hmem) (by decide)
  rw [displayInt, displayInt] at h
  split_ifs at h with hi hj hj
  · have := decimal_injective (List.cons.inj h).2
    omega
  · exact absurd (show '-' ∈ decimal j.natAbs by rw [← h]; exact List.mem_cons_self) (hdigits _)
  · exact absurd (show '-' ∈ decimal i.natAbs by rw [h]; exact List.mem_cons_self) (hdigits _)
  · have := decimal_injective h
    omega

theorem syncReply_injective : Function.Injective syncReply := by
  intro i j h
  rw [syncReply_eq, syncReply_eq] at h
  exact displayInt_injective (List.append_cancel_right (List.append_cancel_left h))

/-- The same answer is to the same command, and with the same id. -/
theorem perform_injective {command other : Command} (hcommand : command ∈ commands) (hother : other ∈ commands) {i j : ℤ}
    (h : perform sampleFacts command.name i = perform sampleFacts other.name j) :
    command = other ∧ (command.name ∈ syncs → i = j) := by
  have hkind := kind_perform hcommand i
  rw [h, kind_perform hother j, Option.some.injEq] at hkind
  refine ⟨hkind.symm, fun hsync => ?_⟩
  subst hkind
  simp only [syncs, List.mem_cons, List.not_mem_nil, or_false] at hsync
  rcases hsync with hsync | hsync
  · rw [hsync] at h
    have hreply : Answer.say (syncReply i) = .say (syncReply j) := h
    injection hreply with hreply
    exact syncReply_injective (Option.some.inj hreply)
  · rw [hsync] at h
    have hreply : Answer.say ('ÿ' :: syncReply i) = .say ('ÿ' :: syncReply j) := h
    injection hreply with hreply
    exact syncReply_injective (List.cons.inj (Option.some.inj hreply)).2

/-! ### When the object is obeyed -/

/-- The agent obeys an object just when the search finds the object's own members. -/
theorem obeys_iff {line : Text} {members : List (Literal × Json)} (h : Json.parse line = some (.object members)) :
    Obeys line members ↔ Agrees (Json.object members).tokens members := by
  have hlex := Json.parse_eq_some_iff.mp h
  obtain ⟨first, more, htokens, -⟩ := Json.tokens_eq_cons (.object members)
  have hanswer := answer_of_lex hlex (by simp [htokens])
  constructor
  · intro hobeys command hcommand hnamed
    obtain ⟨hnot, -⟩ | ⟨taken, htaken, hnamed', heq⟩ := hanswer sampleFacts
    · exact absurd hnamed (hnot command hcommand)
    rw [hnamed, Option.some.injEq] at hnamed'
    obtain hrefused | ⟨obeyed, hobeyed, hown, id, heq', hid⟩ := hobeys sampleFacts
    · rw [heq] at hrefused
      exact absurd hrefused (not_refused_perform htaken _)
    · obtain ⟨rfl, hsame⟩ := perform_injective htaken hobeyed (heq.symm.trans heq')
      rw [hnamed']
      refine ⟨hown, fun hsync => ?_⟩
      rw [hsame hsync]
      exact hid hsync
  · intro hagrees facts
    obtain ⟨-, hrefused⟩ | ⟨command, hcommand, hnamed, heq⟩ := hanswer facts
    · exact .inl hrefused
    · obtain ⟨hown, hid⟩ := hagrees command hcommand hnamed
      exact .inr ⟨command, hcommand, hown, _, heq, hid⟩

/-- A string that is spelled as it is. -/
def verbatim (text : Text) (h : Json.decode text = some text) : Literal := ⟨text, text, h⟩

def executes (name : Text) (h : Json.decode name = some name) : Literal × Json :=
  (verbatim "execute".toList (by decide +kernel), .string (verbatim name h))

def pingMembers : List (Literal × Json) := [executes "guest-ping".toList (by decide +kernel)]

theorem pingMembers_obeyed : Obeys (Json.object pingMembers).render pingMembers := by
  refine (obeys_iff (Json.parse_render _)).mpr fun command hcommand hnamed => ?_
  have hping : named (Json.object pingMembers).tokens = some "guest-ping".toList := by decide +kernel
  rw [hping, Option.some.injEq] at hnamed
  rw [← hnamed]
  exact ⟨by decide +kernel, fun hsync => absurd hsync (by decide +kernel)⟩

/-- A ping with arguments that have a member of the name `execute`. -/
def nestedMembers : List (Literal × Json) :=
  [(verbatim "arguments".toList (by decide +kernel), .object [executes "guest-shutdown".toList (by decide +kernel)]),
    executes "guest-ping".toList (by decide +kernel)]

theorem nestedMembers_shut_down :
    Json.parse (Json.object nestedMembers).render = some (.object nestedMembers) ∧
      own nestedMembers = some "guest-ping".toList ∧
      (∀ facts, answer facts (Json.object nestedMembers).render = ⟨none, true⟩) ∧
      ¬ Obeys (Json.object nestedMembers).render nestedMembers := by
  have hown : own nestedMembers = some "guest-ping".toList := by decide +kernel
  have hline : (Json.object nestedMembers).render ≠ [] := by decide +kernel
  have hfield : stringField (Json.object nestedMembers).render "execute".toList = some "guest-shutdown".toList := by
    decide +kernel
  have hanswer : ∀ facts, answer facts (Json.object nestedMembers).render = ⟨none, true⟩ := answer_shutdown hline hfield
  refine ⟨Json.parse_render _, hown, hanswer, fun hobeys => ?_⟩
  obtain ⟨errorClass, description, heq⟩ | ⟨command, -, hcommand, id, heq, -⟩ := hobeys sampleFacts
  · rw [hanswer] at heq
    cases heq
  · rw [hown, Option.some.injEq] at hcommand
    rw [hanswer, ← hcommand, show perform sampleFacts "guest-ping".toList id = .say pingReply from rfl] at heq
    cases heq

end Kmsrs.Os.Agent
