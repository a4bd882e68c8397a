import Kmsrs.Lib.JsonSearch

/-! JSON written by hand, with a space behind every colon and every comma. What is
joined from texts of values is the text of a value, in which no line ends. -/

namespace Kmsrs.Json

open Text

/-! ### Strings -/

/-- What may stand between two quotes. -/
def Quotable (raw : Text) : Prop := (unescape raw).isSome

instance (raw : Text) : Decidable (Quotable raw) := inferInstanceAs (Decidable (_ = true))

theorem exists_literal {raw : Text} (h : Quotable raw) : ∃ literal : Literal, literal.raw = raw := by
  obtain ⟨units, hunits⟩ := Option.isSome_iff_exists.mp h
  exact ⟨⟨raw, joinSurrogates units, by rw [decode, hunits, Option.map_some]⟩, rfl⟩

/-- A character that stands for itself. -/
def plain (c : Char) : Bool := 0x20 ≤ c.toNat && c != '"' && c != '\\'

theorem unescape_plain {c : Char} (h : plain c) (rest : Text) :
    unescape (c :: rest) = (unescape rest).map (c.toNat :: ·) := by
  simp only [plain, Bool.and_eq_true, decide_eq_true_eq, bne_iff_ne] at h
  have hnot : ¬ (c.toNat < 0x20 ∨ c = '"' ∨ c = '\\') := by
    rintro (hlow | hbad | hbad)
    · omega
    · exact h.1.2 hbad
    · exact h.2 hbad
  rw [unescape.eq_def]
  split <;> simp_all

theorem unescape_escape {c escaped : Char} (h : shortEscape c = some escaped) (rest : Text) :
    unescape ('\\' :: c :: rest) = (unescape rest).map (escaped.toNat :: ·) := by
  have hu : c ≠ 'u' := by
    rintro rfl
    cases h
  rw [unescape]
  · rw [h]
    cases unescape rest <;> rfl
  · simp [hu]

theorem unescape_append {before : Text} {units : List ℕ} (h : unescape before = some units) (after : Text) :
    unescape (before ++ after) = (unescape after).map (units ++ ·) := by
  fun_induction unescape before generalizing units with
  | case1 =>
    cases h
    simp
  | case2 a b c d rest ih =>
    simp only [Option.bind_eq_bind, Option.bind_eq_some_iff] at h
    obtain ⟨unit, hunit, more, hmore, hunits⟩ := h
    cases hunits
    simp only [List.cons_append, unescape, hunit, ih hmore, Option.bind_eq_bind, Option.bind_some]
    cases unescape after <;> rfl
  | case3 c rest hshort ih =>
    simp only [Option.bind_eq_bind, Option.bind_eq_some_iff] at h
    obtain ⟨escaped, hescaped, more, hmore, hunits⟩ := h
    cases hunits
    rw [List.cons_append, List.cons_append, unescape_escape hescaped, ih hmore, Option.map_map]
    rfl
  | case4 => cases h
  | case5 c rest _ _ hplain ih =>
    obtain ⟨more, hmore, rfl⟩ := Option.map_eq_some_iff.mp h
    have hself : plain c := by simpa [plain, not_or, and_assoc] using hplain
    rw [List.cons_append, unescape_plain hself, ih hmore, Option.map_map]
    rfl

theorem quotable_nil : Quotable [] := rfl

theorem Quotable.append {before after : Text} (hbefore : Quotable before) (hafter : Quotable after) :
    Quotable (before ++ after) := by
  obtain ⟨units, hunits⟩ := Option.isSome_iff_exists.mp hbefore
  rw [Quotable, unescape_append hunits, Option.isSome_map]
  exact hafter

theorem quotable_of_plain {text : Text} (h : ∀ c ∈ text, plain c) : Quotable text := by
  induction text with
  | nil => exact quotable_nil
  | cons c text ih =>
    rw [List.forall_mem_cons] at h
    rw [Quotable, unescape_plain h.1, Option.isSome_map]
    exact ih h.2

theorem quotable_flatMap {ι : Type*} {items : List ι} {f : ι → Text} (h : ∀ item ∈ items, Quotable (f item)) :
    Quotable (items.flatMap f) := by
  induction items with
  | nil => exact quotable_nil
  | cons item items ih =>
    rw [List.forall_mem_cons] at h
    rw [List.flatMap_cons]
    exact h.1.append (ih h.2)

/-! ### Values -/

/-- The text splits into the tokens of the value, and no line ends in it. -/
structure Spells (text : Text) (value : Json) : Prop where
  reads : ∀ rest, Boundary rest → lex (text ++ rest) = (lex rest).map (value.tokens ++ ·)
  visible : ∀ c ∈ text, 0x20 ≤ c.toNat

def IsJson (text : Text) : Prop := ∃ value, Spells text value

theorem Spells.parse {text : Text} {value : Json} (h : Spells text value) : Json.parse text = some value := by
  have hlex := h.reads [] (by simp [Boundary])
  rw [List.append_nil, lex_nil, Option.map_some, List.append_nil] at hlex
  exact parse_eq_some_iff.mpr hlex

theorem Spells.not_newline {text : Text} {value : Json} (h : Spells text value) : '\n' ∉ text :=
  fun hmem => absurd (h.visible _ hmem) (by decide)

theorem spells_token {token : Token} {value : Json} (h : value.tokens = [token]) : Spells token.spelling value :=
  ⟨fun rest hrest => by rw [h, lex_spelling_append token fun _ => hrest]; rfl, visible_spelling token⟩

theorem isJson_bool (value : Bool) : IsJson (if value then "true".toList else "false".toList) := by
  refine ⟨.bool value, ?_⟩
  cases value with
  | true => exact @spells_token (.bool true) _ rfl
  | false => exact @spells_token (.bool false) _ rfl

theorem isJson_numeral (numeral : Numeral) : IsJson numeral.raw := ⟨_, @spells_token (.number numeral) (.number numeral) rfl⟩

theorem isJson_string {raw : Text} (h : Quotable raw) : IsJson (quote raw) := by
  obtain ⟨literal, rfl⟩ := exists_literal h
  exact ⟨_, @spells_token (.string literal) (.string literal) rfl⟩

/-! ### Values of several parts -/

def separator : Text := [',', ' ']

def spacedArray (items : List Text) : Text := '[' :: (separator.intercalate items ++ [']'])

def spacedMember (member : Text × Text) : Text := quote member.1 ++ (':' :: ' ' :: member.2)

def spacedObject (members : List (Text × Text)) : Text :=
  '{' :: (separator.intercalate (members.map spacedMember) ++ ['}'])

theorem intercalate_eq (first : Text) (others : List Text) :
    separator.intercalate (first :: others) = first ++ others.flatMap (separator ++ ·) := by
  induction others generalizing first with
  | nil => simp
  | cons second others ih =>
    rw [List.intercalate_cons_cons, ih, List.flatMap_cons]
    simp only [List.append_assoc]

theorem lex_separator (rest : Text) : lex (separator ++ rest) = (lex rest).map (.mark .valueSeparator :: ·) := by
  have hspace : lex (' ' :: rest) = lex rest := lex_space (by decide) rest
  rw [← hspace]
  exact lex_mark .valueSeparator (' ' :: rest)

theorem boundary_further (parts : List Text) {c : Char} (h : isDelimiter c) (rest : Text) :
    Boundary (parts.flatMap (separator ++ ·) ++ c :: rest) := by
  intro first hfirst
  cases parts with
  | nil =>
    obtain rfl : c = first := by simpa using hfirst
    exact h
  | cons part parts =>
    obtain rfl : ',' = first := by simpa [separator] using hfirst
    decide

theorem exists_items {texts : List Text} (h : ∀ text ∈ texts, IsJson text) :
    ∃ items, ∀ rest, lex (texts.flatMap (separator ++ ·) ++ ']' :: rest) = (lex rest).map (itemsTail items ++ ·) := by
  induction texts with
  | nil => exact ⟨[], fun rest => lex_mark .endArray rest⟩
  | cons text texts ih =>
    rw [List.forall_mem_cons] at h
    obtain ⟨value, hvalue⟩ := h.1
    obtain ⟨items, hitems⟩ := ih h.2
    refine ⟨value :: items, fun rest => ?_⟩
    rw [List.flatMap_cons, List.append_assoc, List.append_assoc, lex_separator,
      hvalue.reads _ (boundary_further texts (by decide) rest), hitems, Option.map_map, Option.map_map]
    simp only [Function.comp_def, itemsTail, List.cons_append, List.append_assoc]

theorem isJson_array {texts : List Text} (h : ∀ text ∈ texts, IsJson text) : IsJson (spacedArray texts) := by
  have hvisible : ∀ c ∈ spacedArray texts, 0x20 ≤ c.toNat := by
    rw [spacedArray, List.forall_mem_cons, List.forall_mem_append]
    refine ⟨by decide, forall_mem_intercalate (by decide) fun text htext => ?_, by decide⟩
    obtain ⟨value, hvalue⟩ := h text htext
    exact hvalue.visible
  have hopen : ∀ rest, lex ('[' :: rest) = (lex rest).map (.mark .beginArray :: ·) := lex_mark .beginArray
  cases texts with
  | nil =>
    have hclose : ∀ rest, lex (']' :: rest) = (lex rest).map (.mark .endArray :: ·) := lex_mark .endArray
    refine ⟨.array [], fun rest _ => ?_, hvisible⟩
    rw [spacedArray, List.intercalate_nil, List.nil_append, List.cons_append, List.cons_append, List.nil_append, hopen,
      hclose, Option.map_map]
    rfl
  | cons text texts =>
    rw [List.forall_mem_cons] at h
    obtain ⟨value, hvalue⟩ := h.1
    obtain ⟨items, hitems⟩ := exists_items h.2
    refine ⟨.array (value :: items), fun rest _ => ?_, hvisible⟩
    rw [spacedArray, intercalate_eq, List.cons_append, List.append_assoc, List.append_assoc, List.singleton_append, hopen,
      hvalue.reads _ (boundary_further texts (by decide) rest), hitems, Option.map_map, Option.map_map]
    simp only [Function.comp_def, tokens, List.cons_append, List.append_assoc]

/-- A name that can be written and the text of a value. -/
def IsMember (member : Text × Text) : Prop := Quotable member.1 ∧ IsJson member.2

theorem lex_member (name : Literal) {text : Text} {value : Json} (h : Spells text value) {rest : Text} (hrest : Boundary rest) :
    lex (spacedMember (name.raw, text) ++ rest) =
      (lex rest).map (.string name :: .mark .nameSeparator :: value.tokens ++ ·) := by
  have hcolon : ∀ rest, lex (':' :: rest) = (lex rest).map (.mark .nameSeparator :: ·) := lex_mark .nameSeparator
  have hname : ∀ rest, lex (quote name.raw ++ rest) = (lex rest).map (.string name :: ·) := lex_string_append name
  rw [spacedMember, List.append_assoc, hname, List.cons_append, hcolon, List.cons_append, lex_space (by decide),
    h.reads rest hrest, Option.map_map, Option.map_map]
  rfl

theorem exists_members {texts : List (Text × Text)} (h : ∀ member ∈ texts, IsMember member) :
    ∃ members : List (Literal × Json), members.map (·.1.raw) = texts.map Prod.fst ∧
      ∀ rest, lex ((texts.map spacedMember).flatMap (separator ++ ·) ++ '}' :: rest) =
        (lex rest).map (membersTail members ++ ·) := by
  induction texts with
  | nil => exact ⟨[], rfl, fun rest => lex_mark .endObject rest⟩
  | cons member texts ih =>
    rw [List.forall_mem_cons] at h
    obtain ⟨⟨hname, value, hvalue⟩, hrest⟩ := h
    obtain ⟨name, hraw⟩ := exists_literal hname
    obtain ⟨members, hnames, hmembers⟩ := ih hrest
    refine ⟨(name, value) :: members, by rw [List.map_cons, List.map_cons, hraw, hnames], fun rest => ?_⟩
    have hmember := lex_member name hvalue (boundary_further (c := '}') (texts.map spacedMember) (by decide) rest)
    rw [hraw] at hmember
    rw [List.map_cons, List.flatMap_cons, List.append_assoc, List.append_assoc, lex_separator]
    refine (congrArg _ hmember).trans ?_
    rw [hmembers, Option.map_map, Option.map_map]
    simp only [Function.comp_def, membersTail, List.cons_append, List.append_assoc]

theorem visible_member {member : Text × Text} (h : IsMember member) : ∀ c ∈ spacedMember member, 0x20 ≤ c.toNat := by
  obtain ⟨hname, value, hvalue⟩ := h
  obtain ⟨name, hraw⟩ := exists_literal hname
  rw [spacedMember, List.forall_mem_append, ← hraw]
  simp only [List.forall_mem_cons]
  exact ⟨visible_spelling (.string name), by decide, by decide, hvalue.visible⟩

/-- An object is read as one with the names that were written. -/
theorem exists_object {texts : List (Text × Text)} (h : ∀ member ∈ texts, IsMember member) :
    ∃ members : List (Literal × Json), members.map (·.1.raw) = texts.map Prod.fst ∧
      Spells (spacedObject texts) (.object members) := by
  have hvisible : ∀ c ∈ spacedObject texts, 0x20 ≤ c.toNat := by
    rw [spacedObject, List.forall_mem_cons, List.forall_mem_append]
    refine ⟨by decide, forall_mem_intercalate (by decide) fun text htext => ?_, by decide⟩
    obtain ⟨member, hmember, rfl⟩ := List.mem_map.mp htext
    exact visible_member (h member hmember)
  have hopen : ∀ rest, lex ('{' :: rest) = (lex rest).map (.mark .beginObject :: ·) := lex_mark .beginObject
  cases texts with
  | nil =>
    have hclose : ∀ rest, lex ('}' :: rest) = (lex rest).map (.mark .endObject :: ·) := lex_mark .endObject
    refine ⟨[], rfl, fun rest _ => ?_, hvisible⟩
    rw [spacedObject, List.map_nil, List.intercalate_nil, List.nil_append, List.cons_append, List.cons_append,
      List.nil_append, hopen, hclose, Option.map_map]
    rfl
  | cons member texts =>
    rw [List.forall_mem_cons] at h
    obtain ⟨⟨hname, value, hvalue⟩, hrest⟩ := h
    obtain ⟨name, hraw⟩ := exists_literal hname
    obtain ⟨members, hnames, hmembers⟩ := exists_members hrest
    refine ⟨(name, value) :: members, by rw [List.map_cons, List.map_cons, hraw, hnames], fun rest _ => ?_, hvisible⟩
    have hmember := lex_member name hvalue (boundary_further (c := '}') (texts.map spacedMember) (by decide) rest)
    rw [hraw] at hmember
    rw [spacedObject, List.map_cons, intercalate_eq, List.cons_append, List.append_assoc, List.append_assoc,
      List.singleton_append, hopen]
    refine (congrArg _ hmember).trans ?_
    rw [hmembers, Option.map_map, Option.map_map]
    simp only [Function.comp_def, tokens, List.cons_append, List.append_assoc]

theorem isJson_object {texts : List (Text × Text)} (h : ∀ member ∈ texts, IsMember member) :
    IsJson (spacedObject texts) := by
  obtain ⟨members, -, hspells⟩ := exists_object h
  exact ⟨_, hspells⟩

end Kmsrs.Json
