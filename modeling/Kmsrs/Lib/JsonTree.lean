import Kmsrs.Lib.Display
import Kmsrs.Lib.Json

/-! JSON values as trees. Reading tokens gives back exactly the tree they were
written from, and so a text has at most one tree. -/

namespace Kmsrs

inductive Json where
  | null
  | bool (value : Bool)
  | number (numeral : Json.Numeral)
  | string (literal : Json.Literal)
  | array (items : List Json)
  | object (members : List (Json.Literal × Json))

namespace Json

mutual

def tokens : Json → List Token
  | .null => [.null]
  | .bool value => [.bool value]
  | .number numeral => [.number numeral]
  | .string literal => [.string literal]
  | .array [] => [.mark .beginArray, .mark .endArray]
  | .array (item :: items) => .mark .beginArray :: item.tokens ++ itemsTail items
  | .object [] => [.mark .beginObject, .mark .endObject]
  | .object ((name, value) :: members) => .mark .beginObject :: .string name :: .mark .nameSeparator :: value.tokens ++ membersTail members

/-- The items behind the first, up to the end of the array. -/
def itemsTail : List Json → List Token
  | [] => [.mark .endArray]
  | item :: items => .mark .valueSeparator :: item.tokens ++ itemsTail items

def membersTail : List (Literal × Json) → List Token
  | [] => [.mark .endObject]
  | (name, value) :: members => .mark .valueSeparator :: .string name :: .mark .nameSeparator :: value.tokens ++ membersTail members

end

mutual

def readValue : ℕ → List Token → Option (Json × List Token)
  | 0, _ => none
  | n + 1, input =>
    match input with
    | .null :: rest => some (.null, rest)
    | .bool value :: rest => some (.bool value, rest)
    | .number numeral :: rest => some (.number numeral, rest)
    | .string literal :: rest => some (.string literal, rest)
    | .mark .beginArray :: .mark .endArray :: rest => some (.array [], rest)
    | .mark .beginArray :: rest => do
      let (item, rest) ← readValue n rest
      let (items, rest) ← readItems n rest
      some (.array (item :: items), rest)
    | .mark .beginObject :: .mark .endObject :: rest => some (.object [], rest)
    | .mark .beginObject :: .string name :: .mark .nameSeparator :: rest => do
      let (value, rest) ← readValue n rest
      let (members, rest) ← readMembers n rest
      some (.object ((name, value) :: members), rest)
    | _ => none

def readItems : ℕ → List Token → Option (List Json × List Token)
  | 0, _ => none
  | n + 1, input =>
    match input with
    | .mark .endArray :: rest => some ([], rest)
    | .mark .valueSeparator :: rest => do
      let (item, rest) ← readValue n rest
      let (items, rest) ← readItems n rest
      some (item :: items, rest)
    | _ => none

def readMembers : ℕ → List Token → Option (List (Literal × Json) × List Token)
  | 0, _ => none
  | n + 1, input =>
    match input with
    | .mark .endObject :: rest => some ([], rest)
    | .mark .valueSeparator :: .string name :: .mark .nameSeparator :: rest => do
      let (value, rest) ← readValue n rest
      let (members, rest) ← readMembers n rest
      some ((name, value) :: members, rest)
    | _ => none

end

def parse (text : Text) : Option Json := do
  let tokens ← lex text
  match readValue tokens.length tokens with
  | some (value, []) => some value
  | _ => none


/-- What is read is the tokens of the value, and nothing behind them. -/
theorem append_of_read (n : ℕ) :
    (∀ input value rest, readValue n input = some (value, rest) → input = value.tokens ++ rest) ∧
      (∀ input items rest, readItems n input = some (items, rest) → input = itemsTail items ++ rest) ∧
      (∀ input members rest, readMembers n input = some (members, rest) → input = membersTail members ++ rest) := by
  induction n with
  | zero => simp [readValue, readItems, readMembers]
  | succ n ih =>
    obtain ⟨hvalue, hitems, hmembers⟩ := ih
    refine ⟨fun input value rest h => ?_, fun input items rest h => ?_, fun input members rest h => ?_⟩
    · rw [readValue.eq_def] at h
      dsimp only at h
      split at h
      all_goals simp only [Option.bind_eq_bind, Option.bind_eq_some_iff, Option.some.injEq, Prod.mk.injEq, Prod.exists,
        reduceCtorEq] at h
      case h_6 =>
        obtain ⟨item, between, hitem, items, rest, htail, rfl, rfl⟩ := h
        rw [hvalue _ _ _ hitem, hitems _ _ _ htail]
        simp [tokens]
      case h_8 =>
        obtain ⟨item, between, hitem, items, rest, htail, rfl, rfl⟩ := h
        rw [hvalue _ _ _ hitem, hmembers _ _ _ htail]
        simp [tokens]
      all_goals
        obtain ⟨rfl, rfl⟩ := h
        rfl
    · rw [readItems.eq_def] at h
      dsimp only at h
      split at h
      all_goals simp only [Option.bind_eq_bind, Option.bind_eq_some_iff, Option.some.injEq, Prod.mk.injEq, Prod.exists,
        reduceCtorEq] at h
      · obtain ⟨rfl, rfl⟩ := h
        rfl
      · obtain ⟨item, between, hitem, items, rest, htail, rfl, rfl⟩ := h
        rw [hvalue _ _ _ hitem, hitems _ _ _ htail]
        simp [itemsTail]
    · rw [readMembers.eq_def] at h
      dsimp only at h
      split at h
      all_goals simp only [Option.bind_eq_bind, Option.bind_eq_some_iff, Option.some.injEq, Prod.mk.injEq, Prod.exists,
        reduceCtorEq] at h
      · obtain ⟨rfl, rfl⟩ := h
        rfl
      · obtain ⟨value, between, hread, members, rest, htail, rfl, rfl⟩ := h
        rw [hvalue _ _ _ hread, hmembers _ _ _ htail]
        simp [membersTail]

/-- A value does not begin with the end of an array. -/
theorem tokens_eq_cons (value : Json) : ∃ token more, value.tokens = token :: more ∧ token ≠ .mark .endArray := by
  cases value with
  | null => exact ⟨_, _, rfl, by simp⟩
  | bool value => exact ⟨_, _, rfl, by simp⟩
  | number numeral => exact ⟨_, _, rfl, by simp⟩
  | string literal => exact ⟨_, _, rfl, by simp⟩
  | array items => cases items <;> exact ⟨_, _, rfl, by simp⟩
  | object members => cases members <;> exact ⟨_, _, rfl, by simp⟩

theorem itemsTail_ne_nil (items : List Json) : itemsTail items ≠ [] := by cases items <;> simp [itemsTail]

theorem membersTail_ne_nil (members : List (Literal × Json)) : membersTail members ≠ [] := by
  cases members <;> simp [membersTail]

theorem readValue_array (n : ℕ) (item : Json) (more : List Token) :
    readValue (n + 1) (.mark .beginArray :: (item.tokens ++ more)) = (readValue n (item.tokens ++ more)).bind fun (item, rest) =>
      (readItems n rest).bind fun (items, rest) => some (.array (item :: items), rest) := by
  obtain ⟨token, tokens, htokens, hopen⟩ := tokens_eq_cons item
  rw [htokens, List.cons_append, readValue.eq_def]
  dsimp only
  split <;> simp_all

/-- Enough reading gives back what was written. -/
theorem read_append (n : ℕ) :
    (∀ value rest, value.tokens.length ≤ n → readValue n (value.tokens ++ rest) = some (value, rest)) ∧
      (∀ items rest, (itemsTail items).length ≤ n → readItems n (itemsTail items ++ rest) = some (items, rest)) ∧
      ∀ members rest, (membersTail members).length ≤ n →
        readMembers n (membersTail members ++ rest) = some (members, rest) := by
  induction n with
  | zero =>
    refine ⟨fun value rest h => ?_, fun items rest h => ?_, fun members rest h => ?_⟩
    · obtain ⟨token, more, htokens, -⟩ := tokens_eq_cons value
      simp [htokens] at h
    · simp [itemsTail_ne_nil] at h
    · simp [membersTail_ne_nil] at h
  | succ n ih =>
    obtain ⟨hvalue, hitems, hmembers⟩ := ih
    refine ⟨fun value rest h => ?_, fun items rest h => ?_, fun members rest h => ?_⟩
    · cases value with
      | null => rfl
      | bool value => rfl
      | number numeral => rfl
      | string literal => rfl
      | array items =>
        cases items with
        | nil => rfl
        | cons item items =>
          simp only [tokens, List.cons_append, List.length_cons, List.length_append, List.append_assoc] at h ⊢
          rw [readValue_array, hvalue _ _ (by omega), Option.bind_some]
          simp only [hitems items rest (by omega), Option.bind_some]
      | object members =>
        cases members with
        | nil => rfl
        | cons member members =>
          simp only [tokens, List.cons_append, List.length_cons, List.length_append, List.append_assoc] at h ⊢
          rw [readValue.eq_def]
          simp only [hvalue member.2 _ (by omega), hmembers members rest (by omega), Option.bind_eq_bind, Option.bind_some]
    · cases items with
      | nil => rfl
      | cons item items =>
        simp only [itemsTail, List.cons_append, List.length_cons, List.length_append, List.append_assoc] at h ⊢
        rw [readItems.eq_def]
        simp only [hvalue item _ (by omega), hitems items rest (by omega), Option.bind_eq_bind, Option.bind_some]
    · cases members with
      | nil => rfl
      | cons member members =>
        simp only [membersTail, List.cons_append, List.length_cons, List.length_append, List.append_assoc] at h ⊢
        rw [readMembers.eq_def]
        simp only [hvalue member.2 _ (by omega), hmembers members rest (by omega), Option.bind_eq_bind, Option.bind_some]

/-- The parser reads exactly the texts that split into the tokens of a value. -/
theorem parse_eq_some_iff {text : Text} {value : Json} : parse text = some value ↔ lex text = some value.tokens := by
  rw [parse, Option.bind_eq_bind, Option.bind_eq_some_iff]
  constructor
  · rintro ⟨tokens, hlex, hread⟩
    split at hread
    next hvalue =>
      rw [Option.some.injEq] at hread
      rw [hlex, (append_of_read _).1 _ _ _ hvalue, hread, List.append_nil]
    next => simp at hread
  · intro h
    refine ⟨_, h, ?_⟩
    have hread := (read_append value.tokens.length).1 value [] le_rfl
    rw [List.append_nil] at hread
    rw [hread]

/-! ### Writing -/

/-- The tokens one behind the other, with nothing between them. -/
def spell (tokens : List Token) : Text := tokens.flatMap Token.spelling

def render (value : Json) : Text := spell value.tokens

@[simp] theorem spell_nil : spell [] = [] := rfl

@[simp] theorem spell_cons (token : Token) (tokens : List Token) : spell (token :: tokens) = token.spelling ++ spell tokens :=
  rfl

@[simp] theorem spell_append (before after : List Token) : spell (before ++ after) = spell before ++ spell after :=
  List.flatMap_append

theorem lex_mark_append (mark : Mark) (rest : Text) :
    lex ((Token.mark mark).spelling ++ rest) = (lex rest).map (.mark mark :: ·) :=
  lex_spelling_append _ (by simp [Token.isBare])

theorem lex_string_append (literal : Literal) (rest : Text) :
    lex ((Token.string literal).spelling ++ rest) = (lex rest).map (.string literal :: ·) :=
  lex_spelling_append _ (by simp [Token.isBare])

theorem boundary_mark (mark : Mark) (rest : Text) : Boundary ((Token.mark mark).spelling ++ rest) := by
  intro c hc
  simp only [Token.spelling, List.singleton_append, List.head?_cons, Option.mem_def, Option.some.injEq] at hc
  rw [← hc]
  cases mark <;> rfl

theorem boundary_itemsTail (items : List Json) (rest : Text) : Boundary (spell (itemsTail items) ++ rest) := by
  cases items <;> simp only [itemsTail, spell_cons, List.cons_append, List.append_assoc] <;> exact boundary_mark _ _

theorem boundary_membersTail (members : List (Literal × Json)) (rest : Text) :
    Boundary (spell (membersTail members) ++ rest) := by
  cases members <;> simp only [membersTail, spell_cons, List.cons_append, List.append_assoc] <;> exact boundary_mark _ _

mutual

/-- A value that is written splits into its tokens again. -/
theorem lex_tokens : ∀ (value : Json) {rest : Text}, Boundary rest →
    lex (spell value.tokens ++ rest) = (lex rest).map (value.tokens ++ ·)
  | .null, rest, h => by simpa [tokens] using lex_spelling_append .null fun _ => h
  | .bool value, rest, h => by simpa [tokens] using lex_spelling_append (.bool value) fun _ => h
  | .number numeral, rest, h => by simpa [tokens] using lex_spelling_append (.number numeral) fun _ => h
  | .string literal, rest, h => by simpa [tokens] using lex_string_append literal rest
  | .array [], rest, h => by
    simp only [tokens, spell_cons, spell_nil, List.append_assoc, List.nil_append, lex_mark_append, Option.map_map]
    rfl
  | .array (item :: items), rest, h => by
    simp only [tokens, List.cons_append, spell_cons, spell_append, List.append_assoc, lex_mark_append,
      lex_tokens item (boundary_itemsTail items rest), lex_itemsTail items rest, Option.map_map]
    rfl
  | .object [], rest, h => by
    simp only [tokens, spell_cons, spell_nil, List.append_assoc, List.nil_append, lex_mark_append, Option.map_map]
    rfl
  | .object ((name, value) :: members), rest, h => by
    simp only [tokens, List.cons_append, spell_cons, spell_append, List.append_assoc, lex_mark_append, lex_string_append,
      lex_tokens value (boundary_membersTail members rest), lex_membersTail members rest, Option.map_map]
    rfl

theorem lex_itemsTail : ∀ (items : List Json) (rest : Text),
    lex (spell (itemsTail items) ++ rest) = (lex rest).map (itemsTail items ++ ·)
  | [], rest => by simpa [itemsTail] using lex_mark_append .endArray rest
  | item :: items, rest => by
    simp only [itemsTail, List.cons_append, spell_cons, spell_append, List.append_assoc, lex_mark_append,
      lex_tokens item (boundary_itemsTail items rest), lex_itemsTail items rest, Option.map_map]
    rfl

theorem lex_membersTail : ∀ (members : List (Literal × Json)) (rest : Text),
    lex (spell (membersTail members) ++ rest) = (lex rest).map (membersTail members ++ ·)
  | [], rest => by simpa [membersTail] using lex_mark_append .endObject rest
  | (name, value) :: members, rest => by
    simp only [membersTail, List.cons_append, spell_cons, spell_append, List.append_assoc, lex_mark_append,
      lex_string_append, lex_tokens value (boundary_membersTail members rest), lex_membersTail members rest,
      Option.map_map]
    rfl

end

/-- What is written parses as what was written. -/
theorem parse_render (value : Json) : parse value.render = some value := by
  have hlex := @lex_tokens value [] (by simp [Boundary])
  rw [List.append_nil, lex_nil, Option.map_some, List.append_nil] at hlex
  exact parse_eq_some_iff.mpr hlex

/-- What is written has no control character below the space. -/
theorem visible_render (value : Json) : ∀ c ∈ value.render, 0x20 ≤ c.toNat := by
  intro c hc
  obtain ⟨token, -, hc⟩ := List.mem_flatMap.mp hc
  exact visible_spelling token c hc

/-! ### Objects -/

/-- A member of an object as it is written. -/
def memberText (member : Literal × Json) : Text := '"' :: member.1.raw ++ ['"', ':'] ++ member.2.render

/-- Members behind the first one. -/
def furtherText (members : List (Literal × Json)) : Text := members.flatMap fun member => ',' :: memberText member

@[simp] theorem furtherText_append (before after : List (Literal × Json)) :
    furtherText (before ++ after) = furtherText before ++ furtherText after := List.flatMap_append

theorem spell_membersTail (members : List (Literal × Json)) :
    spell (membersTail members) = furtherText members ++ ['}'] := by
  induction members with
  | nil => rfl
  | cons member members ih =>
    simp only [membersTail, List.cons_append, spell_cons, spell_append, ih, furtherText, List.flatMap_cons, memberText,
      Token.spelling, Mark.char, List.append_assoc, List.nil_append, render]

theorem render_object (member : Literal × Json) (members : List (Literal × Json)) :
    (object (member :: members)).render = '{' :: memberText member ++ furtherText members ++ ['}'] := by
  simp only [render, tokens, List.cons_append, spell_cons, spell_append, spell_membersTail, memberText, Token.spelling,
    Mark.char, List.append_assoc, List.nil_append]

/-- The first member of a name. -/
def member? (members : List (Literal × Json)) (name : Text) : Option Json :=
  (members.find? fun member => member.1.text = name).map Prod.snd

theorem member?_of_mem {members : List (Literal × Json)} (hnodup : (members.map fun member => member.1.text).Nodup)
    {member : Literal × Json} (h : member ∈ members) : member? members member.1.text = some member.2 := by
  induction members with
  | nil => simp at h
  | cons first members ih =>
    rw [List.map_cons, List.nodup_cons] at hnodup
    rw [member?, List.find?_cons]
    rcases List.mem_cons.mp h with rfl | hmem
    · simp
    · have hne : first.1.text ≠ member.1.text := fun heq => hnodup.1 (heq ▸ List.mem_map_of_mem hmem)
      simpa [hne, member?] using ih hnodup.2 hmem

theorem member?_eq_none {members : List (Literal × Json)} {name : Text}
    (h : name ∉ members.map fun member => member.1.text) : member? members name = none := by
  rw [member?, Option.map_eq_none_iff, List.find?_eq_none]
  intro member hmember heq
  exact h (List.mem_map.mpr ⟨member, hmember, by simpa using heq⟩)

def text? : Json → Option Text
  | .string literal => some literal.text
  | _ => none

def number? : Json → Option ℚ
  | .number numeral => some numeral.number.value
  | _ => none

/-! ### Numbers -/

/-- A number above zero does not begin with a zero. -/
theorem head_decimal {n : ℕ} (h : (Text.decimal n).head? = some '0') : n = 0 := by
  induction n using Nat.strong_induction_on with
  | _ n ih =>
    rw [Text.decimal, Nat.toDigits_eq_if (by norm_num)] at h
    split_ifs at h with hsmall
    · simpa using h
    · have hne : Nat.toDigits 10 (n / 10) ≠ [] := Nat.toDigits_ne_nil
      rw [List.head?_append_of_ne_nil _ hne] at h
      have hzero := ih (n / 10) (by omega) h
      omega

theorem readUnsigned_decimal (negative : Bool) (n : ℕ) :
    readUnsigned negative (Text.decimal n) = some ⟨negative, Text.decimal n, [], 0⟩ := by
  have htake : (Text.decimal n).takeWhile Char.isDigit = Text.decimal n :=
    List.takeWhile_eq_self_iff.mpr fun _ => Text.isDigit_decimal
  have hdrop : (Text.decimal n).dropWhile Char.isDigit = [] :=
    List.dropWhile_eq_nil_iff.mpr fun _ => Text.isDigit_decimal
  have hne : Text.decimal n ≠ [] := Nat.toDigits_ne_nil
  have hzero : ¬ ((Text.decimal n).head? = some '0' ∧ Text.decimal n ≠ ['0']) := by
    rintro ⟨hhead, htwo⟩
    rw [head_decimal hhead] at htwo
    exact htwo rfl
  rw [readUnsigned]
  dsimp only
  rw [htake, if_neg (by simp only [hne, hzero, or_self, not_false_iff]), hdrop]
  rfl

theorem readNumber_decimal (n : ℕ) :
    readNumber (Text.decimal n) = some ⟨false, Text.decimal n, [], 0⟩ := by
  have hread := readUnsigned_decimal false n
  cases htext : Text.decimal n with
  | nil => exact absurd htext Nat.toDigits_ne_nil
  | cons c rest =>
    have hsign : c ≠ '-' := by
      rintro rfl
      exact absurd (Text.isDigit_decimal (show '-' ∈ Text.decimal n by rw [htext]; exact List.mem_cons_self)) (by decide)
    rw [htext] at hread
    unfold readNumber
    split
    next heq => exact absurd (List.cons.inj heq).1 hsign
    next => exact hread

/-- A natural number in decimal digits. -/
def Numeral.ofNat (n : ℕ) : Numeral := ⟨Text.decimal n, ⟨false, Text.decimal n, [], 0⟩, readNumber_decimal n⟩

theorem Numeral.value_ofNat (n : ℕ) : (Numeral.ofNat n).number.value = n := by
  rw [ofNat, Number.value, digits]
  simp [Text.decimal, Nat.ofDigitChars_ten_toDigits]

end Json

end Kmsrs
