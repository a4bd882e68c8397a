import Kmsrs.Os.Agent

/-! Which command the guest agent takes a JSON text for: the string behind the first
string that is spelled `execute`, wherever that is. -/

namespace Kmsrs.Os.Agent

open Json (Token PlainName lex afterName)
open Text

/-- The command named behind the first `execute` of a text. -/
def named (tokens : List Token) : Option Text :=
  match afterName "execute".toList tokens with
  | some (.mark .nameSeparator :: .string literal :: _) => some literal.raw
  | _ => none

/-- The part of a number before its point, if it is a 64-bit integer, else zero. -/
def wholePart (number : Json.Number) : ℤ :=
  let magnitude : ℤ := Json.digits number.whole
  let value := if number.negative then -magnitude else magnitude
  if -2 ^ 63 ≤ value ∧ value < 2 ^ 63 then value else 0

/-- The number behind the first `id` of a text, or zero. -/
def carried (tokens : List Token) : ℤ :=
  match afterName "id".toList tokens with
  | some (.mark .nameSeparator :: .number numeral :: _) => wholePart numeral.number
  | _ => 0

/-! ### The search and the tokens -/

theorem plainName_literal {s : String} {text : Text} (hs : s = String.ofList text) (h : PlainName text) :
    PlainName s.toList := by
  subst hs
  rwa [String.toList_ofList]

theorem plainName_execute : PlainName "execute".toList :=
  plainName_literal rfl ⟨by decide, by decide, by decide, by decide⟩

theorem plainName_id : PlainName "id".toList := plainName_literal rfl ⟨by decide, by decide, by decide, by decide⟩

theorem stripChar_spelling {c : Char} {token : Token} {rest : Text} (hne : token.spelling.head? ≠ some c) :
    stripChar c (token.spelling ++ rest) = none := by
  obtain ⟨first, tail, hspelling, -⟩ := Json.not_isWhitespace_spelling token
  rw [hspelling] at hne ⊢
  rw [List.cons_append, stripChar, if_neg]
  simpa using hne

theorem head_spelling_eq_colon {token : Token} (h : token.spelling.head? = some ':') : token = .mark .nameSeparator := by
  cases token with
  | mark punctuation => cases punctuation <;> first | rfl | exact absurd h (by decide)
  | string literal => exact absurd h (by simp [Token.spelling])
  | bool value => cases value <;> exact absurd h (by decide)
  | null => exact absurd h (by decide)
  | number numeral =>
    have hcolon := Json.numberCharacter_raw numeral ':' (List.mem_of_mem_head? h)
    exact absurd hcolon (by decide)

variable {line key : Text} {tokens : List Token}

/-- Behind the name and a colon the rest of the tokens begin. -/
theorem afterKey_of_lex (hkey : PlainName key) (h : lex line = some tokens) :
    ((∀ more, afterName key tokens ≠ some (.mark .nameSeparator :: more)) ∧ afterKey line key = none) ∨
      ∃ more rest, afterName key tokens = some (.mark .nameSeparator :: more) ∧
        afterKey line key = some (trimStart rest) ∧ lex rest = some more := by
  have hafter : afterKey line key = (behind (Json.quote key) line).bind fun rest =>
      (stripChar ':' (trimStart rest)).map trimStart := by
    rw [afterKey, Option.bind_eq_bind]
    congr 1
    funext rest
    cases stripChar ':' (trimStart rest) <;> rfl
  obtain ⟨hnone, hbehind⟩ | ⟨more, rest, hsome, hbehind, hlex⟩ := Json.behind_quote_of_lex hkey h
  · rw [hafter, hnone, hbehind]
    exact .inl ⟨by simp, rfl⟩
  rw [hafter, hsome, hbehind, Option.bind_some]
  obtain ⟨rfl, htrim⟩ | ⟨token, more, rest, rfl, htrim, -, hrest⟩ := Json.trimStart_of_lex hlex
  · rw [htrim]
    exact .inl ⟨by simp, rfl⟩
  rw [htrim]
  by_cases hcolon : token.spelling.head? = some ':'
  · obtain rfl := head_spelling_eq_colon hcolon
    exact .inr ⟨more, rest, rfl, rfl, hrest⟩
  · rw [stripChar_spelling hcolon]
    refine .inl ⟨fun more heq => hcolon ?_, rfl⟩
    rw [Option.some.injEq, List.cons.injEq] at heq
    rw [heq.1]
    rfl

/-- A quote inside a string has a backslash before it. -/
theorem takeWhile_body {body : Text} (h : Json.Body body) :
    body.takeWhile (· ≠ '"') = body ∧ '"' ∉ body ∨ '\\' ∈ body.takeWhile (· ≠ '"') := by
  induction h with
  | nil => simp
  | escape c _ _ => simp
  | plain hquote _ _ ih =>
    rw [List.takeWhile_cons_of_pos (by simpa using hquote)]
    rcases ih with ⟨htake, hmem⟩ | hmem
    · exact .inl ⟨by rw [htake], by simp [Ne.symm hquote, hmem]⟩
    · exact .inr (List.mem_cons_of_mem _ hmem)

theorem takeWhile_append_stop {p : Char → Bool} {c : Char} (hc : ¬ p c) (before rest : Text) :
    (before ++ c :: rest).takeWhile p = before.takeWhile p := by
  induction before with
  | nil => rw [List.nil_append, List.takeWhile_cons_of_neg hc, List.takeWhile_nil]
  | cons first before ih => rw [List.cons_append, List.takeWhile_cons, List.takeWhile_cons, ih]

/-- Of a string the text up to its first quote is read. -/
theorem stringField_of_string {rest : Text} {literal : Json.Literal} {tail : Text}
    (hafter : afterKey line key = some rest) (hrest : rest = (Token.string literal).spelling ++ tail) :
    stringField line key = some (literal.raw.takeWhile (· ≠ '"')) := by
  subst hrest
  rw [stringField, hafter, Token.spelling, List.append_assoc, List.cons_append]
  simp [stripChar, takeWhile_append_stop]

theorem stringField_of_other {rest : Text} (hafter : afterKey line key = some rest) (hrest : rest.head? ≠ some '"') :
    stringField line key = none := by
  rw [stringField, hafter]
  cases rest with
  | nil => rfl
  | cons c rest =>
    have hc : c ≠ '"' := by simpa using hrest
    simp [stripChar, hc]

theorem head_spelling_eq_quote {token : Token} (h : token.spelling.head? = some '"') : ∃ literal, token = .string literal := by
  cases token with
  | mark punctuation => cases punctuation <;> exact absurd h (by decide)
  | string literal => exact ⟨literal, rfl⟩
  | bool value => cases value <;> exact absurd h (by decide)
  | null => exact absurd h (by decide)
  | number numeral =>
    have hquote := Json.numberCharacter_raw numeral '"' (List.mem_of_mem_head? h)
    exact absurd hquote (by decide)

theorem takeWhile_raw_eq_iff (literal : Json.Literal) {name : Text} (hname : '\\' ∉ name) :
    literal.raw.takeWhile (· ≠ '"') = name ↔ literal.raw = name := by
  obtain ⟨htake, -⟩ | hescape := takeWhile_body (Json.body_raw literal)
  · rw [htake]
  · refine ⟨?_, ?_⟩
    · rintro rfl
      exact absurd hescape hname
    · rintro rfl
      exact absurd ((List.takeWhile_prefix _).subset hescape) hname

/-- The member is read as a text without a backslash just when it is spelled so. -/
theorem stringField_eq_some_iff (h : lex line = some tokens) {name : Text} (hname : '\\' ∉ name) :
    stringField line "execute".toList = some name ↔ named tokens = some name := by
  obtain ⟨hnone, hafter⟩ | ⟨more, found, hsome, hafter, hlex⟩ := afterKey_of_lex plainName_execute h
  · rw [stringField, hafter, named]
    split
    next literal more heq => exact absurd heq (hnone _)
    next => simp
  rw [named, hsome]
  obtain ⟨rfl, htrim⟩ | ⟨token, more, rest, rfl, htrim, -, -⟩ := Json.trimStart_of_lex hlex
  · rw [stringField_of_other hafter (by simp [htrim])]
  by_cases hquote : token.spelling.head? = some '"'
  · obtain ⟨literal, rfl⟩ := head_spelling_eq_quote hquote
    rw [stringField_of_string hafter htrim]
    simp only [Option.some.injEq, takeWhile_raw_eq_iff literal hname]
  · have hhead : (trimStart found).head? ≠ some '"' := by
      rw [htrim]
      obtain ⟨c, tail, hspelling, -⟩ := Json.not_isWhitespace_spelling token
      rw [hspelling] at hquote ⊢
      exact hquote
    rw [stringField_of_other hafter hhead]
    cases token with
    | string literal => exact absurd rfl hquote
    | _ => simp

/-! ### Numbers -/

/-- Digits and hyphens. -/
def inInteger (c : Char) : Bool := c.isDigit || c = '-'

theorem parseI64_sign (number : Json.Number) (hne : number.whole ≠ []) (hdigits : ∀ c ∈ number.whole, c.isDigit) :
    (parseI64 (number.sign ++ number.whole)).getD 0 = wholePart number := by
  have hhead : number.whole.head? ≠ some '-' := by
    intro h
    exact absurd (hdigits '-' (List.mem_of_mem_head? h)) (by decide)
  have hall : number.whole.all Char.isDigit := List.all_eq_true.mpr hdigits
  rw [wholePart, Json.Number.sign, Json.digits]
  cases number.negative with
  | false =>
    simp only [parseI64, Bool.false_eq_true, if_false, List.nil_append, if_neg hhead, hne, hall, ne_eq, not_false_iff, true_and]
    split_ifs <;> rfl
  | true =>
    simp only [parseI64, if_true, List.singleton_append, List.head?_cons, List.tail_cons, hne, hall, ne_eq, not_false_iff,
      true_and]
    split_ifs <;> rfl

/-- Of a number the sign and the digits before the point are read. -/
theorem takeWhile_numeral (numeral : Json.Numeral) {rest : Text} (hrest : Json.Boundary rest) :
    (numeral.raw ++ rest).takeWhile inInteger = numeral.number.sign ++ numeral.number.whole ∧
      numeral.number.whole ≠ [] ∧ ∀ c ∈ numeral.number.whole, c.isDigit := by
  obtain ⟨tail, hraw, hne, hdigits, htail, -⟩ := Json.append_of_readNumber numeral.read_raw
  refine ⟨?_, hne, hdigits⟩
  have hfront : ∀ c ∈ numeral.number.sign ++ numeral.number.whole, inInteger c := by
    intro c hc
    rw [List.mem_append, Json.Number.sign] at hc
    rcases hc with hc | hc
    · split_ifs at hc <;> simp_all [inInteger]
    · simp [inInteger, hdigits c hc]
  have hstop : (tail ++ rest).takeWhile inInteger = [] := by
    cases tail with
    | nil =>
      cases rest with
      | nil => rfl
      | cons c rest =>
        have hdelimiter := Json.isDelimiter_iff.mp (hrest c rfl)
        have hall : ∀ c ∈ [' ', '\t', '\n', '\r', '{', '}', '[', ']', ':', ',', '"'], ¬ inInteger c := by decide
        exact List.takeWhile_cons_of_neg (hall c hdelimiter)
    | cons c tail =>
      have hall : ∀ c ∈ ['.', 'e', 'E'], ¬ inInteger c := by decide
      exact List.takeWhile_cons_of_neg (hall c (by simpa using htail c rfl))
  rw [hraw, ← List.append_assoc, List.append_assoc, List.takeWhile_append_of_pos hfront, hstop, List.append_nil]

/-- The id that is sent back is the number behind the first `id`. -/
theorem syncId_eq_carried (h : lex line = some tokens) : syncId line = carried tokens := by
  have hnumber : ∀ rest, afterKey line "id".toList = some rest →
      syncId line = (parseI64 (rest.takeWhile inInteger)).getD 0 := by
    intro rest hafter
    rw [syncId, numberField, hafter]
    rfl
  obtain ⟨hnone, hafter⟩ | ⟨more, rest, hsome, hafter, hlex⟩ := afterKey_of_lex plainName_id h
  · rw [syncId, numberField, hafter, carried]
    split
    next numeral more heq => exact absurd heq (hnone _)
    next => rfl
  rw [hnumber _ hafter, carried, hsome]
  obtain ⟨rfl, htrim⟩ | ⟨token, more, rest, rfl, htrim, hboundary, -⟩ := Json.trimStart_of_lex hlex
  · rw [htrim]
    rfl
  rw [htrim]
  cases token with
  | number numeral =>
    obtain ⟨htake, hne, hdigits⟩ := takeWhile_numeral numeral (hboundary rfl)
    rw [Token.spelling, htake, parseI64_sign _ hne hdigits]
  | mark punctuation => cases punctuation <;> rfl
  | string literal => rfl
  | bool value => cases value <;> rfl
  | null => rfl

end Kmsrs.Os.Agent
