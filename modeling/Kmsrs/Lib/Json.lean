import Kmsrs.Lib.Text

/-! JSON texts (RFC 8259). A text is split into tokens by reading it character by
character; a token keeps how it is spelled beside what it stands for. The tokens
are read into a tree, and what is read is exactly what the tree is written as. -/

namespace Kmsrs.Json

/-! ### Strings -/

def hexValue (c : Char) : Option ℕ :=
  if c.isDigit then some (c.toNat - '0'.toNat)
  else if 'a' ≤ c ∧ c ≤ 'f' then some (c.toNat - 'a'.toNat + 10)
  else if 'A' ≤ c ∧ c ≤ 'F' then some (c.toNat - 'A'.toNat + 10)
  else none

def hexUnit (a b c d : Char) : Option ℕ := do
  let a ← hexValue a
  let b ← hexValue b
  let c ← hexValue c
  let d ← hexValue d
  some (4096 * a + 256 * b + 16 * c + d)

/-- The escapes of two characters. -/
def shortEscape : Char → Option Char
  | '"' => some '"'
  | '\\' => some '\\'
  | '/' => some '/'
  | 'b' => some '\x08'
  | 'f' => some '\x0C'
  | 'n' => some '\n'
  | 'r' => some '\r'
  | 't' => some '\t'
  | _ => none

/-- What stands between the quotes as code points, where surrogates may occur. -/
def unescape : Text → Option (List ℕ)
  | [] => some []
  | '\\' :: 'u' :: a :: b :: c :: d :: rest => do
    let unit ← hexUnit a b c d
    let more ← unescape rest
    some (unit :: more)
  | '\\' :: c :: rest => do
    let c ← shortEscape c
    let more ← unescape rest
    some (c.toNat :: more)
  | c :: rest => if c.toNat < 0x20 ∨ c = '"' ∨ c = '\\' then none else (unescape rest).map (c.toNat :: ·)

/-- A surrogate that stands alone is no character. -/
def scalar (unit : ℕ) : Char := if unit.isValidChar then .ofNat unit else '\uFFFD'

def joinSurrogates : List ℕ → Text
  | [] => []
  | [unit] => [scalar unit]
  | leading :: trailing :: rest =>
    if (0xD800 ≤ leading ∧ leading < 0xDC00) ∧ 0xDC00 ≤ trailing ∧ trailing < 0xE000 then
      .ofNat (0x10000 + 0x400 * (leading - 0xD800) + (trailing - 0xDC00)) :: joinSurrogates rest
    else scalar leading :: joinSurrogates (trailing :: rest)

def decode (raw : Text) : Option Text := (unescape raw).map joinSurrogates

/-- What stands between two quotes, and the text it stands for. -/
structure Literal where
  raw : Text
  text : Text
  decode_raw : decode raw = some text
deriving DecidableEq

def Literal.of (raw : Text) : Option Literal :=
  match h : decode raw with
  | none => none
  | some text => some ⟨raw, text, h⟩

/-! ### Numbers -/

/-- The digits before the point and behind it, and the exponent. -/
structure Number where
  negative : Bool
  whole : Text
  fraction : Text
  exponent : ℤ
deriving DecidableEq

def digits (text : Text) : ℕ := Nat.ofDigitChars 10 text 0

def Number.value (number : Number) : ℚ :=
  let magnitude : ℚ := digits (number.whole ++ number.fraction) * 10 ^ (number.exponent - number.fraction.length)
  if number.negative then -magnitude else magnitude

def readFraction : Text → Option (Text × Text)
  | '.' :: rest =>
    if rest.takeWhile Char.isDigit = [] then none
    else some (rest.takeWhile Char.isDigit, rest.dropWhile Char.isDigit)
  | rest => some ([], rest)

/-- Ten to which power. -/
def readPower (e : Char) (negative : Bool) (power : Text) : Option ℤ :=
  if (e = 'e' ∨ e = 'E') ∧ power ≠ [] ∧ power.all Char.isDigit then
    some (if negative then -digits power else digits power)
  else none

def readExponent : Text → Option ℤ
  | [] => some 0
  | e :: '+' :: power => readPower e false power
  | e :: '-' :: power => readPower e true power
  | e :: power => readPower e false power

def readUnsigned (negative : Bool) (text : Text) : Option Number := do
  let whole := text.takeWhile Char.isDigit
  if whole = [] ∨ whole.head? = some '0' ∧ whole ≠ ['0'] then none
  else
    let (fraction, rest) ← readFraction (text.dropWhile Char.isDigit)
    let exponent ← readExponent rest
    some { negative, whole, fraction, exponent }

def readNumber : Text → Option Number
  | '-' :: text => readUnsigned true text
  | text => readUnsigned false text

/-- How a number is spelled, and which it is. -/
structure Numeral where
  raw : Text
  number : Number
  read_raw : readNumber raw = some number
deriving DecidableEq

def Numeral.of (raw : Text) : Option Numeral :=
  match h : readNumber raw with
  | none => none
  | some number => some ⟨raw, number, h⟩

/-! ### Tokens -/

/-- The characters that structure a text. -/
inductive Mark where
  | beginObject
  | endObject
  | beginArray
  | endArray
  | nameSeparator
  | valueSeparator
deriving DecidableEq

def Mark.char : Mark → Char
  | .beginObject => '{'
  | .endObject => '}'
  | .beginArray => '['
  | .endArray => ']'
  | .nameSeparator => ':'
  | .valueSeparator => ','

def Mark.of : Char → Option Mark
  | '{' => some .beginObject
  | '}' => some .endObject
  | '[' => some .beginArray
  | ']' => some .endArray
  | ':' => some .nameSeparator
  | ',' => some .valueSeparator
  | _ => none

inductive Token where
  | mark (mark : Mark)
  | string (literal : Literal)
  | number (numeral : Numeral)
  | bool (value : Bool)
  | null
deriving DecidableEq

def isSpace (c : Char) : Bool := [' ', '\t', '\n', '\r'].contains c

/-- Whether a word or a number ends here. -/
def isDelimiter (c : Char) : Bool := isSpace c || (Mark.of c).isSome || c == '"'

def Token.spelling : Token → Text
  | .mark punctuation => [punctuation.char]
  | .string literal => '"' :: literal.raw ++ ['"']
  | .number numeral => numeral.raw
  | .bool true => "true".toList
  | .bool false => "false".toList
  | .null => "null".toList

/-- A token that is neither punctuation nor in quotes. -/
def bare (raw : Text) : Option Token :=
  if raw = "true".toList then some (.bool true)
  else if raw = "false".toList then some (.bool false)
  else if raw = "null".toList then some .null
  else (Numeral.of raw).map .number

/-- Where in a token the reading is. -/
inductive Mode where
  | between
  | quoted (raw : Text)
  | escape (raw : Text)
  | word (raw : Text)

def start (c : Char) : List Token × Mode :=
  match Mark.of c with
  | some mark => ([.mark mark], .between)
  | none => if isSpace c then ([], .between) else if c = '"' then ([], .quoted []) else ([], .word [c])

def step : Mode → Char → Option (List Token × Mode)
  | .between, c => some (start c)
  | .quoted raw, c =>
    if c = '"' then (Literal.of raw).map fun literal => ([.string literal], .between)
    else if c = '\\' then some ([], .escape raw)
    else some ([], .quoted (raw ++ [c]))
  | .escape raw, c => some ([], .quoted (raw ++ ['\\', c]))
  | .word raw, c =>
    if isDelimiter c then (bare raw).map fun token => (token :: (start c).1, (start c).2)
    else some ([], .word (raw ++ [c]))

def finish : Mode → Option (List Token)
  | .between => some []
  | .quoted _ | .escape _ => none
  | .word raw => (bare raw).map ([·])

def lexFrom : Mode → Text → Option (List Token)
  | mode, [] => finish mode
  | mode, c :: rest => do
    let (tokens, mode) ← step mode c
    let more ← lexFrom mode rest
    some (tokens ++ more)

def lex (text : Text) : Option (List Token) := lexFrom .between text

/-! ### What a text is split into -/

/-- Nothing between the quotes ends the string before its end. -/
inductive Body : Text → Prop where
  | nil : Body []
  | escape (c : Char) {rest : Text} (h : Body rest) : Body ('\\' :: c :: rest)
  | plain {c : Char} {rest : Text} (hquote : c ≠ '"') (hescape : c ≠ '\\') (h : Body rest) : Body (c :: rest)

theorem Body.hex {c : Char} {n : ℕ} (hvalue : hexValue c = some n) {rest : Text} (h : Body rest) : Body (c :: rest) := by
  refine .plain ?_ ?_ h <;>
  · rintro rfl
    rw [show hexValue _ = none by decide] at hvalue
    cases hvalue

theorem body_of_unescape {raw : Text} {units : List ℕ} (h : unescape raw = some units) : Body raw := by
  fun_induction unescape raw generalizing units with
  | case1 => exact .nil
  | case2 a b c d rest ih =>
    simp only [Option.bind_eq_bind, Option.bind_eq_some_iff] at h
    obtain ⟨unit, hunit, more, hmore, -⟩ := h
    simp only [hexUnit, Option.bind_eq_bind, Option.bind_eq_some_iff] at hunit
    obtain ⟨_, ha, _, hb, _, hc, _, hd, -⟩ := hunit
    exact .escape _ (.hex ha (.hex hb (.hex hc (.hex hd (ih hmore)))))
  | case3 c rest _ ih =>
    simp only [Option.bind_eq_bind, Option.bind_eq_some_iff] at h
    obtain ⟨_, -, more, hmore, -⟩ := h
    exact .escape _ (ih hmore)
  | case4 => simp at h
  | case5 c rest _ _ hplain ih =>
    rw [Option.map_eq_some_iff] at h
    obtain ⟨more, hmore, -⟩ := h
    rw [not_or, not_or] at hplain
    exact .plain hplain.2.1 hplain.2.2 (ih hmore)

theorem hexValue_visible {c : Char} {n : ℕ} (h : hexValue c = some n) : 0x20 ≤ c.toNat := by
  by_contra hlow
  have hall : ∀ code < 0x20, hexValue (.ofNat code) = none := by decide
  rw [← Char.ofNat_toNat c, hall c.toNat (by omega)] at h
  cases h

theorem shortEscape_visible {c escaped : Char} (h : shortEscape c = some escaped) : 0x20 ≤ c.toNat := by
  by_contra hlow
  have hall : ∀ code < 0x20, shortEscape (.ofNat code) = none := by decide
  rw [← Char.ofNat_toNat c, hall c.toNat (by omega)] at h
  cases h

/-- Control characters are escaped. -/
theorem visible_of_unescape {raw : Text} {units : List ℕ} (h : unescape raw = some units) :
    ∀ c ∈ raw, 0x20 ≤ c.toNat := by
  fun_induction unescape raw generalizing units with
  | case1 => simp
  | case2 a b c d rest ih =>
    simp only [Option.bind_eq_bind, Option.bind_eq_some_iff] at h
    obtain ⟨unit, hunit, more, hmore, -⟩ := h
    simp only [hexUnit, Option.bind_eq_bind, Option.bind_eq_some_iff] at hunit
    obtain ⟨_, ha, _, hb, _, hc, _, hd, -⟩ := hunit
    simp only [List.forall_mem_cons]
    exact ⟨by decide, by decide, hexValue_visible ha, hexValue_visible hb, hexValue_visible hc, hexValue_visible hd, ih hmore⟩
  | case3 c rest _ ih =>
    simp only [Option.bind_eq_bind, Option.bind_eq_some_iff] at h
    obtain ⟨_, hescape, more, hmore, -⟩ := h
    simp only [List.forall_mem_cons]
    exact ⟨by decide, shortEscape_visible hescape, ih hmore⟩
  | case4 => simp at h
  | case5 c rest _ _ hplain ih =>
    obtain ⟨more, hmore, -⟩ := Option.map_eq_some_iff.mp h
    exact List.forall_mem_cons.mpr ⟨by omega, ih hmore⟩

theorem Literal.of_eq_some_iff {raw : Text} {literal : Literal} : Literal.of raw = some literal ↔ literal.raw = raw := by
  obtain ⟨spelled, text, hdecode⟩ := literal
  rw [Literal.of]
  constructor
  · intro h
    split at h <;> simp_all
  · rintro rfl
    split
    next hnone => exact absurd (hnone.symm.trans hdecode) (by simp)
    next hsome => simpa using Option.some.inj (hsome.symm.trans hdecode)

theorem Numeral.of_eq_some_iff {raw : Text} {numeral : Numeral} : Numeral.of raw = some numeral ↔ numeral.raw = raw := by
  obtain ⟨spelled, number, hread⟩ := numeral
  rw [Numeral.of]
  constructor
  · intro h
    split at h <;> simp_all
  · rintro rfl
    split
    next hnone => exact absurd (hnone.symm.trans hread) (by simp)
    next hsome => simpa using Option.some.inj (hsome.symm.trans hread)

theorem lex_nil : lex [] = some [] := rfl

theorem lexFrom_cons (mode : Mode) (c : Char) (rest : Text) :
    lexFrom mode (c :: rest) = (step mode c).bind fun (tokens, mode) => (lexFrom mode rest).map (tokens ++ ·) := by
  rw [lexFrom]
  cases step mode c with
  | none => rfl
  | some next =>
    obtain ⟨tokens, mode⟩ := next
    simp only [Option.bind_eq_bind, Option.bind_some]
    cases lexFrom mode rest <;> rfl

/-- Inside a token a character is taken in. -/
theorem lexFrom_of_step {mode next : Mode} {c : Char} (h : step mode c = some ([], next)) (rest : Text) :
    lexFrom mode (c :: rest) = lexFrom next rest := by
  rw [lexFrom_cons, h, Option.bind_some]
  simp only [List.nil_append, Option.map_id']

@[simp] theorem Mark.of_char (mark : Mark) : Mark.of mark.char = some mark := by cases mark <;> rfl

theorem Mark.char_of {c : Char} {mark : Mark} (h : Mark.of c = some mark) : mark.char = c := by
  unfold Mark.of at h
  split at h <;> cases h <;> rfl

theorem Mark.of_space {c : Char} (h : isSpace c) : Mark.of c = none := by
  simp only [isSpace, List.contains_eq_mem, List.mem_cons, List.not_mem_nil, or_false, decide_eq_true_eq] at h
  rcases h with rfl | rfl | rfl | rfl <;> rfl

theorem lex_space {c : Char} (h : isSpace c) (rest : Text) : lex (c :: rest) = lex rest :=
  lexFrom_of_step (by simp [step, start, Mark.of_space h, h]) rest

theorem lex_mark (mark : Mark) (rest : Text) : lex (mark.char :: rest) = (lex rest).map (.mark mark :: ·) := by
  rw [lex, lexFrom_cons, step, start, Mark.of_char, Option.bind_some]
  rfl

theorem lex_quote (rest : Text) : lex ('"' :: rest) = lexFrom (.quoted []) rest := lexFrom_of_step rfl rest

theorem lex_word {c : Char} (h : ¬ isDelimiter c) (rest : Text) : lex (c :: rest) = lexFrom (.word [c]) rest := by
  simp only [isDelimiter, Bool.or_eq_true, not_or, beq_iff_eq, Option.isSome_iff_ne_none, ne_eq, not_not] at h
  exact lexFrom_of_step (by simp [step, start, h]) rest

/-- A word goes on to the next delimiter. -/
theorem lexFrom_word (raw text : Text) :
    lexFrom (.word raw) text = (bare (raw ++ text.takeWhile (!isDelimiter ·))).bind fun token =>
      (lex (text.dropWhile (!isDelimiter ·))).map (token :: ·) := by
  induction text generalizing raw with
  | nil =>
    rw [List.takeWhile_nil, List.dropWhile_nil, List.append_nil, lexFrom, finish, lex_nil]
    cases bare raw <;> rfl
  | cons c rest ih =>
    by_cases hend : isDelimiter c
    · rw [List.takeWhile_cons_of_neg (by simp [hend]), List.dropWhile_cons_of_neg (by simp [hend]), List.append_nil,
        lex, lexFrom_cons, lexFrom_cons, step, step, if_pos hend]
      cases bare raw with
      | none => rfl
      | some token => simp [Option.map_map, Function.comp_def]
    · rw [List.takeWhile_cons_of_pos (by simp [hend]), List.dropWhile_cons_of_pos (by simp [hend]),
        lexFrom_of_step (by rw [step, if_neg hend]), ih, List.append_assoc]
      rfl

theorem lexFrom_quoted (raw body rest : Text) (h : Body body) :
    lexFrom (.quoted raw) (body ++ '"' :: rest) = (Literal.of (raw ++ body)).bind fun literal =>
      (lex rest).map (.string literal :: ·) := by
  induction h generalizing raw with
  | nil =>
    rw [List.nil_append, lexFrom_cons, step, if_pos rfl, List.append_nil]
    cases Literal.of raw <;> rfl
  | escape c _ ih =>
    rw [List.cons_append, List.cons_append, lexFrom_of_step (show _ = some ([], .escape raw) from rfl), lexFrom_of_step (by rfl), ih,
      List.append_assoc]
    rfl
  | plain hquote hescape _ ih =>
    rw [List.cons_append, lexFrom_of_step (by rw [step, if_neg hquote, if_neg hescape]), ih, List.append_assoc]
    rfl

/-- A string that is read is read to its end. -/
theorem append_of_lexFrom_quoted (text : Text) : ∀ raw tokens,
    (lexFrom (.quoted raw) text = some tokens → ∃ body rest, text = body ++ '"' :: rest ∧ Body body) ∧
      (lexFrom (.escape raw) text = some tokens → ∃ c body rest, text = c :: body ++ '"' :: rest ∧ Body body) := by
  induction text with
  | nil => simp [lexFrom, finish]
  | cons c text ih =>
    intro raw tokens
    refine ⟨fun h => ?_, fun h => ?_⟩
    · by_cases hquote : c = '"'
      · exact ⟨[], text, by rw [hquote, List.nil_append], .nil⟩
      by_cases hescape : c = '\\'
      · rw [lexFrom_of_step (by rw [step, if_neg hquote, if_pos hescape])] at h
        obtain ⟨next, body, rest, rfl, hbody⟩ := (ih _ _).2 h
        exact ⟨c :: next :: body, rest, rfl, hescape ▸ .escape next hbody⟩
      · rw [lexFrom_of_step (by rw [step, if_neg hquote, if_neg hescape])] at h
        obtain ⟨body, rest, rfl, hbody⟩ := (ih _ _).1 h
        exact ⟨c :: body, rest, rfl, .plain hquote hescape hbody⟩
    · rw [lexFrom_of_step (by rw [step])] at h
      obtain ⟨body, rest, rfl, hbody⟩ := (ih _ _).1 h
      exact ⟨c, body, rest, rfl, hbody⟩

/-! ### How tokens are spelled -/

/-- What follows a word or a number is a delimiter. -/
def Boundary (text : Text) : Prop := ∀ c ∈ text.head?, isDelimiter c

/-- Neither punctuation nor in quotes. -/
def Token.isBare : Token → Bool
  | .mark _ | .string _ => false
  | .number _ | .bool _ | .null => true

def numberCharacter (c : Char) : Bool := c.isDigit || ['+', '-', '.', 'e', 'E'].contains c

def Number.sign (number : Number) : Text := if number.negative then ['-'] else []

theorem numberCharacter_of_isDigit {c : Char} (h : c.isDigit) : numberCharacter c := by simp [numberCharacter, h]

theorem numberCharacter_of_readPower {e : Char} {negative : Bool} {power : Text} {exponent : ℤ}
    (h : readPower e negative power = some exponent) :
    (e = 'e' ∨ e = 'E') ∧ ∀ c ∈ e :: power, numberCharacter c := by
  obtain ⟨⟨he, -, hpower⟩, -⟩ := Option.ite_none_right_eq_some.mp h
  rw [List.all_eq_true] at hpower
  refine ⟨he, List.forall_mem_cons.mpr ⟨?_, fun c hc => numberCharacter_of_isDigit (hpower c hc)⟩⟩
  rcases he with rfl | rfl <;> rfl

theorem numberCharacter_of_readExponent {text : Text} {exponent : ℤ} (h : readExponent text = some exponent) :
    (∀ c ∈ text.head?, c = 'e' ∨ c = 'E') ∧ ∀ c ∈ text, numberCharacter c := by
  unfold readExponent at h
  split at h
  · simp
  all_goals
    obtain ⟨he, hpower⟩ := numberCharacter_of_readPower h
    rw [List.forall_mem_cons] at hpower
    refine ⟨by simpa using he, ?_⟩
    simp only [List.forall_mem_cons]
  · exact ⟨hpower.1, rfl, hpower.2⟩
  · exact ⟨hpower.1, rfl, hpower.2⟩
  · exact hpower

theorem numberCharacter_of_readFraction {text fraction rest : Text} (h : readFraction text = some (fraction, rest))
    (hrest : (∀ c ∈ rest.head?, c = 'e' ∨ c = 'E') ∧ ∀ c ∈ rest, numberCharacter c) :
    (∀ c ∈ text.head?, c = '.' ∨ c = 'e' ∨ c = 'E') ∧ ∀ c ∈ text, numberCharacter c := by
  unfold readFraction at h
  split at h
  next digits =>
    obtain ⟨-, h⟩ := Option.ite_none_left_eq_some.mp h
    rw [Option.some.injEq, Prod.mk.injEq] at h
    refine ⟨by simp, List.forall_mem_cons.mpr ⟨rfl, fun c hc => ?_⟩⟩
    rw [← List.takeWhile_append_dropWhile (p := Char.isDigit) (l := digits), List.mem_append] at hc
    rcases hc with hc | hc
    · exact numberCharacter_of_isDigit (List.mem_takeWhile_imp hc)
    · exact hrest.2 c (h.2 ▸ hc)
  next =>
    rw [Option.some.injEq, Prod.mk.injEq] at h
    rw [h.2]
    exact ⟨fun c hc => .inr (hrest.1 c hc), hrest.2⟩

theorem append_of_readUnsigned {negative : Bool} {text : Text} {number : Number}
    (h : readUnsigned negative text = some number) :
    number.negative = negative ∧ ∃ tail, text = number.whole ++ tail ∧ number.whole ≠ [] ∧
      (∀ c ∈ number.whole, c.isDigit) ∧ (∀ c ∈ tail.head?, c = '.' ∨ c = 'e' ∨ c = 'E') ∧
        ∀ c ∈ tail, numberCharacter c := by
  rw [readUnsigned] at h
  obtain ⟨hwhole, h⟩ := Option.ite_none_left_eq_some.mp h
  simp only [Option.bind_eq_bind, Option.bind_eq_some_iff] at h
  obtain ⟨⟨fraction, rest⟩, hfraction, exponent, hexponent, h⟩ := h
  rw [Option.some.injEq] at h
  rw [not_or] at hwhole
  subst h
  have htail := numberCharacter_of_readFraction hfraction (numberCharacter_of_readExponent hexponent)
  refine ⟨rfl, text.dropWhile Char.isDigit, ?_, hwhole.1, fun c hc => List.mem_takeWhile_imp hc, htail⟩
  rw [List.takeWhile_append_dropWhile]

/-- The sign and the digits before the point, then the rest of the number. -/
theorem append_of_readNumber {raw : Text} {number : Number} (h : readNumber raw = some number) :
    ∃ tail, raw = number.sign ++ (number.whole ++ tail) ∧ number.whole ≠ [] ∧ (∀ c ∈ number.whole, c.isDigit) ∧
      (∀ c ∈ tail.head?, c = '.' ∨ c = 'e' ∨ c = 'E') ∧ ∀ c ∈ tail, numberCharacter c := by
  unfold readNumber at h
  split at h
  · obtain ⟨hsign, tail, rfl, htail⟩ := append_of_readUnsigned h
    exact ⟨tail, by simp [Number.sign, hsign], htail⟩
  · obtain ⟨hsign, tail, rfl, htail⟩ := append_of_readUnsigned h
    exact ⟨tail, by simp [Number.sign, hsign], htail⟩

theorem isDelimiter_iff {c : Char} :
    isDelimiter c ↔ c ∈ [' ', '\t', '\n', '\r', '{', '}', '[', ']', ':', ',', '"'] := by
  rw [isDelimiter, isSpace]
  unfold Mark.of
  split <;> simp_all [or_assoc]

theorem not_isDelimiter_of_numberCharacter {c : Char} (h : numberCharacter c) : ¬ isDelimiter c := by
  rw [isDelimiter_iff]
  intro hc
  have hnone : ∀ c ∈ [' ', '\t', '\n', '\r', '{', '}', '[', ']', ':', ',', '"'], ¬ numberCharacter c := by decide
  exact hnone c hc h

theorem numberCharacter_raw (numeral : Numeral) : ∀ c ∈ numeral.raw, numberCharacter c := by
  obtain ⟨tail, hraw, -, hdigits, -, htail⟩ := append_of_readNumber numeral.read_raw
  intro c hc
  rw [hraw, List.mem_append, List.mem_append, Number.sign] at hc
  rcases hc with hc | hc | hc
  · split_ifs at hc <;> simp_all [numberCharacter]
  · exact numberCharacter_of_isDigit (hdigits c hc)
  · exact htail c hc

theorem bare_spelling {token : Token} (h : token.isBare) :
    bare token.spelling = some token ∧ token.spelling ≠ [] ∧ ∀ c ∈ token.spelling, ¬ isDelimiter c := by
  cases token with
  | mark punctuation => cases h
  | string literal => cases h
  | bool value => cases value <;> exact ⟨rfl, by simp [Token.spelling], by decide⟩
  | null => exact ⟨rfl, by simp [Token.spelling], by decide⟩
  | number numeral =>
    have hword : ∀ word ∈ ["true".toList, "false".toList, "null".toList], readNumber word = none := by decide
    obtain ⟨tail, hraw, hne, -⟩ := append_of_readNumber numeral.read_raw
    refine ⟨?_, ?_, fun c hc => not_isDelimiter_of_numberCharacter (numberCharacter_raw numeral c hc)⟩
    · have hnot : ∀ word ∈ ["true".toList, "false".toList, "null".toList], numeral.raw ≠ word := by
        intro word hmem heq
        have hnone := hword word hmem
        rw [← heq, numeral.read_raw] at hnone
        cases hnone
      rw [Token.spelling, bare, if_neg (hnot _ (by simp)), if_neg (hnot _ (by simp)), if_neg (hnot _ (by simp)),
        Numeral.of_eq_some_iff.mpr rfl, Option.map_some]
    · rw [Token.spelling, hraw]
      simp [hne]

theorem bare_eq_some_iff {raw : Text} {token : Token} : bare raw = some token ↔ token.isBare ∧ token.spelling = raw := by
  constructor
  · intro h
    unfold bare at h
    split_ifs at h with htrue hfalse hnull
    · cases h
      exact ⟨rfl, htrue.symm⟩
    · cases h
      exact ⟨rfl, hfalse.symm⟩
    · cases h
      exact ⟨rfl, hnull.symm⟩
    · obtain ⟨numeral, hnumeral, rfl⟩ := Option.map_eq_some_iff.mp h
      exact ⟨rfl, Numeral.of_eq_some_iff.mp hnumeral⟩
  · rintro ⟨hbare, rfl⟩
    exact (bare_spelling hbare).1

theorem body_raw (literal : Literal) : Body literal.raw := by
  obtain ⟨units, hunits, -⟩ := Option.map_eq_some_iff.mp literal.decode_raw
  exact body_of_unescape hunits

/-- No token is spelled with a control character below the space. -/
theorem visible_spelling (token : Token) : ∀ c ∈ token.spelling, 0x20 ≤ c.toNat := by
  cases token with
  | mark punctuation => cases punctuation <;> decide
  | string literal =>
    obtain ⟨units, hunits, -⟩ := Option.map_eq_some_iff.mp literal.decode_raw
    rw [Token.spelling, List.cons_append, List.forall_mem_cons, List.forall_mem_append]
    exact ⟨by decide, visible_of_unescape hunits, by decide⟩
  | number numeral =>
    intro c hc
    by_contra hlow
    have hall : ∀ code < 0x20, ¬ numberCharacter (.ofNat code) := by decide
    have hnumber := numberCharacter_raw numeral c hc
    rw [← Char.ofNat_toNat c] at hnumber
    exact hall c.toNat (by omega) hnumber
  | bool value => cases value <;> decide
  | null => decide

theorem Boundary.dropWhile (text : Text) : Boundary (text.dropWhile (!isDelimiter ·)) := by
  intro c hc
  have := List.head?_dropWhile_not (!isDelimiter ·) text
  rw [Option.mem_def] at hc
  simpa [hc] using this

/-- A word is taken as a whole. -/
theorem takeWhile_append_of_boundary {word rest : Text} (hword : ∀ c ∈ word, ¬ isDelimiter c) (h : Boundary rest) :
    (word ++ rest).takeWhile (!isDelimiter ·) = word ∧ (word ++ rest).dropWhile (!isDelimiter ·) = rest := by
  have hrest : rest.takeWhile (!isDelimiter ·) = [] ∧ rest.dropWhile (!isDelimiter ·) = rest := by
    cases rest with
    | nil => exact ⟨rfl, rfl⟩
    | cons c rest => simp [h c rfl]
  constructor
  · rw [List.takeWhile_append_of_pos (by simpa using hword), hrest.1, List.append_nil]
  · rw [List.dropWhile_append_of_pos (by simpa using hword), hrest.2]

/-- A token is read back from its spelling. -/
theorem lex_spelling_append (token : Token) {rest : Text} (h : token.isBare → Boundary rest) :
    lex (token.spelling ++ rest) = (lex rest).map (token :: ·) := by
  by_cases hbare : token.isBare
  · obtain ⟨hread, hne, hword⟩ := bare_spelling hbare
    obtain ⟨c, word, hspelling⟩ := List.exists_cons_of_ne_nil hne
    rw [hspelling, List.forall_mem_cons] at hword
    rw [hspelling] at hread ⊢
    obtain ⟨htake, hdrop⟩ := takeWhile_append_of_boundary hword.2 (h hbare)
    rw [List.cons_append, lex_word hword.1, lexFrom_word, htake, hdrop, List.singleton_append, hread, Option.bind_some]
  · cases token with
    | mark punctuation => exact lex_mark punctuation rest
    | string literal =>
      rw [Token.spelling, List.cons_append, List.cons_append, lex_quote, List.append_assoc, List.singleton_append,
        lexFrom_quoted [] _ _ (body_raw literal), List.nil_append, Literal.of_eq_some_iff.mpr rfl, Option.bind_some]
    | _ => exact absurd rfl hbare

/-- A text that is read has only space in it, or begins with a token behind space. -/
theorem cases_of_lex {text : Text} {tokens : List Token} (h : lex text = some tokens) :
    (tokens = [] ∧ ∀ c ∈ text, isSpace c) ∨
      ∃ token more space rest, tokens = token :: more ∧ text = space ++ (token.spelling ++ rest) ∧
        (∀ c ∈ space, isSpace c) ∧ (token.isBare → Boundary rest) ∧ lex rest = some more := by
  induction text with
  | nil =>
    rw [lex_nil, Option.some.injEq] at h
    exact .inl ⟨h.symm, by simp⟩
  | cons c text ih =>
    by_cases hspace : isSpace c
    · rw [lex_space hspace] at h
      obtain ⟨rfl, hall⟩ | ⟨token, more, space, rest, rfl, rfl, hall, hrest⟩ := ih h
      · exact .inl ⟨rfl, List.forall_mem_cons.mpr ⟨hspace, hall⟩⟩
      · exact .inr ⟨token, more, c :: space, rest, rfl, rfl, List.forall_mem_cons.mpr ⟨hspace, hall⟩, hrest⟩
    cases hmark : Mark.of c with
    | some mark =>
      rw [← Mark.char_of hmark, lex_mark, Option.map_eq_some_iff] at h
      obtain ⟨more, hmore, rfl⟩ := h
      exact .inr ⟨_, more, [], text, rfl, by rw [← Mark.char_of hmark]; rfl, by simp, by simp [Token.isBare], hmore⟩
    | none =>
      by_cases hquote : c = '"'
      · subst hquote
        rw [lex_quote] at h
        obtain ⟨body, rest, rfl, hbody⟩ := (append_of_lexFrom_quoted text _ _).1 h
        rw [lexFrom_quoted _ _ _ hbody, List.nil_append, Option.bind_eq_some_iff] at h
        obtain ⟨literal, hliteral, h⟩ := h
        rw [Literal.of_eq_some_iff] at hliteral
        obtain ⟨more, hmore, rfl⟩ := Option.map_eq_some_iff.mp h
        exact .inr ⟨_, more, [], rest, rfl, by simp [Token.spelling, hliteral], by simp, by simp [Token.isBare], hmore⟩
      · have hword : ¬ isDelimiter c := by simp [isDelimiter, hspace, hmark, hquote]
        rw [lex_word hword, lexFrom_word, Option.bind_eq_some_iff] at h
        obtain ⟨word, hbare, h⟩ := h
        obtain ⟨more, hmore, rfl⟩ := Option.map_eq_some_iff.mp h
        rw [bare_eq_some_iff] at hbare
        refine .inr ⟨word, more, [], text.dropWhile (!isDelimiter ·), rfl, ?_, by simp, fun _ => .dropWhile text, hmore⟩
        rw [hbare.2, List.nil_append, List.singleton_append, List.cons_append, List.takeWhile_append_dropWhile]

end Kmsrs.Json
