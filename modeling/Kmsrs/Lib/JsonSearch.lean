import Kmsrs.Lib.JsonTree

/-! Searching a JSON text for a name in quotes, as if it were not JSON. What is found is
the end of the first string that is spelled so or ends with an escaped quote and the
name, at any depth and whether or not it is the name of a member. -/

namespace Kmsrs

/-- What stands behind the first place where a text is found. -/
def Text.behind (needle : Text) : Text → Option Text
  | [] => none
  | c :: rest => if needle.isPrefixOf (c :: rest) then some ((c :: rest).drop needle.length) else Text.behind needle rest

namespace Json

open Text

/-- A text with quotes around it. -/
def quote (text : Text) : Text := '"' :: (text ++ ['"'])

/-- A name that is spelled as it is and is no word by itself. -/
structure PlainName (name : Text) : Prop where
  ne_nil : name ≠ []
  not_delimiter : ∀ c ∈ name, ¬ isDelimiter c
  not_escape : '\\' ∉ name
  not_word : bare name = none

/-- Whether a string ends with the name behind a quote, be it the quote it begins with. -/
def Token.ends (name : Text) : Token → Bool
  | .string literal => ('"' :: name).isSuffixOf ('"' :: literal.raw)
  | _ => false

/-- The tokens behind the first string that ends so. -/
def afterName (name : Text) : List Token → Option (List Token)
  | [] => none
  | token :: more => if token.ends name then some more else afterName name more

/-! ### The search over a text that is not a string -/

variable {name : Text}

theorem behind_quote_cons_of_ne {c : Char} (h : c ≠ '"') (rest : Text) :
    behind (quote name) (c :: rest) = behind (quote name) rest := by
  rw [behind, if_neg]
  simp [quote, List.isPrefixOf, Ne.symm h]

theorem behind_quote_cons (rest : Text) : behind (quote name) ('"' :: rest) =
    if (name ++ ['"']).isPrefixOf rest then some (rest.drop (name.length + 1)) else behind (quote name) rest := by
  rw [behind, quote, List.isPrefixOf_cons_cons, beq_self_eq_true, Bool.true_and, List.length_cons, List.length_append,
    List.length_singleton, List.drop_succ_cons]

theorem behind_quote_append {before : Text} (h : '"' ∉ before) (rest : Text) :
    behind (quote name) (before ++ rest) = behind (quote name) rest := by
  induction before with
  | nil => rfl
  | cons c before ih =>
    rw [List.mem_cons, not_or] at h
    rw [List.cons_append, behind_quote_cons_of_ne (Ne.symm h.1), ih h.2]

theorem behind_quote_of_not_mem {text : Text} (h : '"' ∉ text) : behind (quote name) text = none := by
  have happend : behind (quote name) (text ++ []) = behind (quote name) [] := behind_quote_append h []
  rwa [List.append_nil] at happend

theorem not_mem_space {space : Text} (h : ∀ c ∈ space, isSpace c) : '"' ∉ space := fun hquote =>
  absurd (h '"' hquote) (by decide)

theorem not_mem_spelling {token : Token} (h : ∀ literal, token ≠ .string literal) : '"' ∉ token.spelling := by
  cases token with
  | mark punctuation => cases punctuation <;> decide
  | string literal => exact absurd rfl (h literal)
  | number numeral => exact fun hquote => absurd (numberCharacter_raw numeral '"' hquote) (by decide)
  | bool value => cases value <;> decide
  | null => decide

/-! ### The search over a string -/

/-- What is found at a quote is the whole of what follows, up to the quote at the end. -/
theorem quote_isPrefixOf_iff {body : Text} (hbody : Body body) {name : Text} (hquote : '"' ∉ name) (hescape : '\\' ∉ name)
    (rest : Text) : (name ++ ['"']).isPrefixOf (body ++ '"' :: rest) ↔ body = name := by
  induction hbody generalizing name with
  | nil =>
    cases name with
    | nil => simp
    | cons c name =>
      rw [List.mem_cons, not_or] at hquote
      simp [Ne.symm hquote.1]
  | escape c h ih =>
    cases name with
    | nil => simp
    | cons c name =>
      rw [List.mem_cons, not_or] at hescape
      simp [Ne.symm hescape.1, hescape.1]
  | @plain c rest' hc _ h ih =>
    cases name with
    | nil => simp [Ne.symm hc]
    | cons c name =>
      rw [List.mem_cons, not_or] at hquote hescape
      have := ih hquote.2 hescape.2
      simp only [List.cons_append, List.isPrefixOf_cons_cons, Bool.and_eq_true, beq_iff_eq, this, List.cons.injEq]
      exact and_congr_left' eq_comm

theorem PlainName.not_quote (h : PlainName name) : '"' ∉ name := fun hquote => h.not_delimiter '"' hquote (by decide)

/-- Inside a string only an escaped quote can begin what is found. -/
theorem behind_quote_body (hname : PlainName name) {body : Text} (hbody : Body body) (rest : Text) :
    behind (quote name) (body ++ '"' :: rest) =
      if ('"' :: name) <:+ body then some rest else behind (quote name) ('"' :: rest) := by
  induction hbody with
  | nil => rw [if_neg (by simp), List.nil_append]
  | @plain c body hc _ _ ih =>
    rw [List.cons_append, behind_quote_cons_of_ne hc, ih]
    simp only [List.suffix_cons_iff, List.cons.injEq, Ne.symm hc, false_and, false_or]
  | @escape c body hbody ih =>
    rw [List.cons_append, List.cons_append, behind_quote_cons_of_ne (by decide)]
    by_cases hc : c = '"'
    · subst hc
      rw [behind_quote_cons, ih]
      simp only [quote_isPrefixOf_iff hbody hname.not_quote hname.not_escape, List.suffix_cons_iff, List.cons.injEq, true_and]
      by_cases heq : body = name
      · subst heq
        simp
      · rw [if_neg heq]
        simp [Ne.symm heq]
    · rw [behind_quote_cons_of_ne hc, ih]
      simp [List.suffix_cons_iff, Ne.symm hc]

/-- The search over a string goes on at the quote that ends it. -/
theorem behind_quote_string (hname : PlainName name) (literal : Literal) (rest : Text) :
    behind (quote name) ((Token.string literal).spelling ++ rest) =
      if (Token.string literal).ends name then some rest else behind (quote name) ('"' :: rest) := by
  have hbody := body_raw literal
  rw [Token.spelling, List.cons_append, List.cons_append, List.append_assoc, List.singleton_append, behind_quote_cons,
    behind_quote_body hname hbody]
  simp only [quote_isPrefixOf_iff hbody hname.not_quote hname.not_escape, Token.ends, List.isSuffixOf_iff_suffix,
    List.suffix_cons_iff, List.cons.injEq, true_and]
  by_cases heq : literal.raw = name
  · rw [if_pos heq, if_pos (.inl heq.symm), heq]
    simp
  · rw [if_neg heq]
    simp only [Ne.symm heq, false_or]

/-- What follows a string does not begin with a name that is no word. -/
theorem behind_quote_end (hname : PlainName name) {rest : Text} {tokens : List Token} (h : lex rest = some tokens) :
    behind (quote name) ('"' :: rest) = behind (quote name) rest := by
  rw [behind_quote_cons, if_neg]
  intro hprefix
  obtain ⟨more, rfl⟩ := List.isPrefixOf_iff_prefix.mp hprefix
  obtain ⟨c, tail, hcons⟩ := List.exists_cons_of_ne_nil hname.ne_nil
  have hword : ∀ c ∈ tail, ¬ isDelimiter c := fun d hd => hname.not_delimiter d (by simp [hcons, hd])
  have hend : Boundary (['"'] ++ more) := by
    intro c hc
    obtain rfl := Option.some.inj hc
    decide
  rw [hcons, List.append_assoc, List.cons_append, lex_word (hname.not_delimiter c (by simp [hcons])), lexFrom_word,
    (takeWhile_append_of_boundary hword hend).1, List.singleton_append, ← hcons, hname.not_word] at h
  cases h

/-! ### The search over a text -/

/-- The search finds the end of the first string that ends with the name. -/
theorem behind_quote_of_lex (hname : PlainName name) {text : Text} {tokens : List Token} (h : lex text = some tokens) :
    (afterName name tokens = none ∧ behind (quote name) text = none) ∨
      ∃ more rest, afterName name tokens = some more ∧ behind (quote name) text = some rest ∧ lex rest = some more := by
  induction tokens generalizing text with
  | nil =>
    obtain ⟨-, hspace⟩ | ⟨_, _, _, _, hcons, -⟩ := cases_of_lex h
    · exact .inl ⟨rfl, behind_quote_of_not_mem (not_mem_space hspace)⟩
    · cases hcons
  | cons token tokens ih =>
    obtain ⟨hnil, -⟩ | ⟨_, _, space, rest, hcons, rfl, hspace, hboundary, hrest⟩ := cases_of_lex h
    · cases hnil
    obtain ⟨rfl, rfl⟩ := List.cons.inj hcons
    rw [behind_quote_append (not_mem_space hspace)]
    cases token with
    | string literal =>
      rw [behind_quote_string hname, afterName]
      split_ifs with hends
      · exact .inr ⟨tokens, rest, rfl, rfl, hrest⟩
      · rw [behind_quote_end hname hrest]
        exact ih hrest
    | _ =>
      rw [behind_quote_append (not_mem_spelling (by simp))]
      exact ih hrest

/-! ### The token that comes next -/

theorem isWhitespace_of_isSpace {c : Char} (h : isSpace c) : isWhitespace c := by
  simp only [isSpace, List.contains_eq_mem, List.mem_cons, List.not_mem_nil, or_false, decide_eq_true_eq] at h
  rcases h with rfl | rfl | rfl | rfl <;> decide

theorem not_isWhitespace_of_numberCharacter {c : Char} (h : numberCharacter c) : ¬ isWhitespace c := by
  have hall : ∀ n < 0x80, numberCharacter (Char.ofNat n) → ¬ isWhitespace (Char.ofNat n) := by decide
  have hlt : c.toNat < 0x80 := by
    simp only [numberCharacter, Bool.or_eq_true, List.contains_eq_mem, List.mem_cons, List.not_mem_nil, or_false,
      decide_eq_true_eq] at h
    rcases h with h | rfl | rfl | rfl | rfl | rfl
    · simp only [Char.isDigit, ge_iff_le, Bool.and_eq_true, decide_eq_true_eq] at h
      have : c.val.toNat ≤ 57 := h.2
      exact lt_of_le_of_lt this (by norm_num)
    all_goals decide
  have := hall c.toNat hlt
  rw [Char.ofNat_toNat] at this
  exact this h

theorem not_isWhitespace_spelling (token : Token) :
    ∃ c rest, token.spelling = c :: rest ∧ ¬ isWhitespace c := by
  cases token with
  | mark punctuation => cases punctuation <;> exact ⟨_, _, rfl, by decide⟩
  | string literal => exact ⟨'"', _, rfl, by decide⟩
  | bool value => cases value <;> exact ⟨_, _, rfl, by decide⟩
  | null => exact ⟨_, _, rfl, by decide⟩
  | number numeral =>
    obtain ⟨tail, hraw, hne, -⟩ := append_of_readNumber numeral.read_raw
    obtain ⟨c, rest, hcons⟩ : ∃ c rest, numeral.raw = c :: rest := by
      refine List.exists_cons_of_ne_nil fun hnil => ?_
      rw [hnil] at hraw
      simp_all
    exact ⟨c, rest, hcons, not_isWhitespace_of_numberCharacter (numberCharacter_raw numeral c (by simp [hcons]))⟩

/-- Behind space stands the next token. -/
theorem trimStart_of_lex {text : Text} {tokens : List Token} (h : lex text = some tokens) :
    (tokens = [] ∧ trimStart text = []) ∨
      ∃ token more rest, tokens = token :: more ∧ trimStart text = token.spelling ++ rest ∧
        (token.isBare → Boundary rest) ∧ lex rest = some more := by
  obtain ⟨rfl, hspace⟩ | ⟨token, more, space, rest, rfl, rfl, hspace, hboundary, hrest⟩ := cases_of_lex h
  · exact .inl ⟨rfl, List.dropWhile_eq_nil_iff.mpr fun c hc => isWhitespace_of_isSpace (hspace c hc)⟩
  · obtain ⟨c, tail, hspelling, hc⟩ := not_isWhitespace_spelling token
    refine .inr ⟨token, more, rest, rfl, ?_, hboundary, hrest⟩
    rw [trimStart, List.dropWhile_append_of_pos fun c hc => isWhitespace_of_isSpace (hspace c hc), hspelling,
      List.cons_append, List.dropWhile_cons_of_neg hc]

end Json

end Kmsrs
