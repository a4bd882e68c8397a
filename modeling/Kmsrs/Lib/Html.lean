import Kmsrs.Lib.Text

/-! Hypertext: the tags a tokenizer finds in a text, when two texts have the same ones,
and character references. A text without `<` adds no tag wherever text can stand. -/

namespace Kmsrs.Html

/-! ### Tags -/

/-- A tag, with the names and values of its attributes as they are written. -/
structure Tag where
  closing : Bool
  name : Text
  attributes : List (Text × Text)
deriving DecidableEq

def Tag.attribute (tag : Tag) (name value : Text) : Tag :=
  { tag with attributes := tag.attributes ++ [(name, value)] }

/-- What the tokenizer is in the middle of. A declaration is read up to the first `>`. -/
inductive State where
  | data
  | tagOpen
  | endTagOpen
  | declaration
  | tagName (tag : Tag)
  | beforeAttributeName (tag : Tag)
  | attributeName (tag : Tag) (name : Text)
  | afterAttributeName (tag : Tag) (name : Text)
  | beforeAttributeValue (tag : Tag) (name : Text)
  | attributeValueQuoted (tag : Tag) (name : Text) (quote : Char) (value : Text)
  | attributeValueUnquoted (tag : Tag) (name value : Text)
  | rawText (element : Text)
  | rawTextLessThan (element : Text)
  | rawTextEndTag (element name : Text)
deriving DecidableEq

def isSpace (c : Char) : Bool := [' ', '\t', '\n', '\r', Char.ofNat 0x0C].contains c

/-- The elements in which only their own end tag is a tag. -/
def rawElements : List Text :=
  [['s', 't', 'y', 'l', 'e'], ['t', 'i', 't', 'l', 'e'], ['s', 'c', 'r', 'i', 'p', 't'],
    ['t', 'e', 'x', 't', 'a', 'r', 'e', 'a']]

/-- The tag is complete. -/
def emit (tag : Tag) : State × Option Tag :=
  (if !tag.closing ∧ tag.name ∈ rawElements then .rawText tag.name else .data, some tag)

/-- One character. -/
def step : State → Char → State × Option Tag
  | .data, c => (if c = '<' then .tagOpen else .data, none)
  | .tagOpen, c =>
    if c.isAlpha then (.tagName ⟨false, [c.toLower], []⟩, none)
    else if c = '/' then (.endTagOpen, none)
    else if c = '!' ∨ c = '?' then (.declaration, none)
    else (if c = '<' then .tagOpen else .data, none)
  | .endTagOpen, c =>
    if c.isAlpha then (.tagName ⟨true, [c.toLower], []⟩, none)
    else (if c = '>' then .data else .declaration, none)
  | .declaration, c => (if c = '>' then .data else .declaration, none)
  | .tagName tag, c =>
    if c = '>' then emit tag
    else if isSpace c ∨ c = '/' then (.beforeAttributeName tag, none)
    else (.tagName { tag with name := tag.name ++ [c.toLower] }, none)
  | .beforeAttributeName tag, c =>
    if c = '>' then emit tag
    else if isSpace c ∨ c = '/' then (.beforeAttributeName tag, none)
    else (.attributeName tag [c.toLower], none)
  | .attributeName tag name, c =>
    if c = '>' then emit (tag.attribute name [])
    else if c = '=' then (.beforeAttributeValue tag name, none)
    else if c = '/' then (.beforeAttributeName (tag.attribute name []), none)
    else if isSpace c then (.afterAttributeName tag name, none)
    else (.attributeName tag (name ++ [c.toLower]), none)
  | .afterAttributeName tag name, c =>
    if c = '>' then emit (tag.attribute name [])
    else if c = '=' then (.beforeAttributeValue tag name, none)
    else if c = '/' then (.beforeAttributeName (tag.attribute name []), none)
    else if isSpace c then (.afterAttributeName tag name, none)
    else (.attributeName (tag.attribute name []) [c.toLower], none)
  | .beforeAttributeValue tag name, c =>
    if c = '>' then emit (tag.attribute name [])
    else if isSpace c then (.beforeAttributeValue tag name, none)
    else if c = '"' ∨ c = '\'' then (.attributeValueQuoted tag name c [], none)
    else (.attributeValueUnquoted tag name [c], none)
  | .attributeValueQuoted tag name quote value, c =>
    if c = quote then (.beforeAttributeName (tag.attribute name value), none)
    else (.attributeValueQuoted tag name quote (value ++ [c]), none)
  | .attributeValueUnquoted tag name value, c =>
    if c = '>' then emit (tag.attribute name value)
    else if isSpace c then (.beforeAttributeName (tag.attribute name value), none)
    else (.attributeValueUnquoted tag name (value ++ [c]), none)
  | .rawText element, c => (if c = '<' then .rawTextLessThan element else .rawText element, none)
  | .rawTextLessThan element, c =>
    if c = '/' then (.rawTextEndTag element [], none)
    else (if c = '<' then .rawTextLessThan element else .rawText element, none)
  | .rawTextEndTag element name, c =>
    if c = '>' ∧ name = element then emit ⟨true, name, []⟩
    else if (isSpace c ∨ c = '/') ∧ name = element then (.beforeAttributeName ⟨true, name, []⟩, none)
    else if c.isAlpha then (.rawTextEndTag element (name ++ [c.toLower]), none)
    else (if c = '<' then .rawTextLessThan element else .rawText element, none)

/-- Where the tokenizer is after a text, and the tags it found. -/
def scan (state : State) : Text → State × List Tag
  | [] => (state, [])
  | c :: text => ((scan (step state c).1 text).1, (step state c).2.toList ++ (scan (step state c).1 text).2)

/-- The tags of a text, in order. -/
def tags (text : Text) : List Tag := (scan .data text).2

theorem scan_append (state : State) (before after : Text) :
    scan state (before ++ after) =
      ((scan (scan state before).1 after).1, (scan state before).2 ++ (scan (scan state before).1 after).2) := by
  induction before generalizing state with
  | nil => rfl
  | cons c before ih => rw [List.cons_append, scan, scan, ih, List.append_assoc]

theorem scan_append_fst (state : State) (before after : Text) :
    (scan state (before ++ after)).1 = (scan (scan state before).1 after).1 := by
  rw [scan_append]

/-- Text without `<` is not markup. -/
theorem scan_of_not_mem {state : State} (hstate : ∀ c ≠ '<', step state c = (state, none)) {text : Text} (h : '<' ∉ text) :
    scan state text = (state, []) := by
  induction text with
  | nil => rfl
  | cons c text ih =>
    rw [List.mem_cons, not_or] at h
    obtain ⟨hc, htext⟩ := h
    rw [scan, hstate c (Ne.symm hc), ih htext]
    rfl

theorem step_data {c : Char} (h : c ≠ '<') : step .data c = (.data, none) := by rw [step, if_neg h]

theorem step_rawText {element : Text} {c : Char} (h : c ≠ '<') : step (.rawText element) c = (.rawText element, none) := by
  rw [step, if_neg h]

/-! ### Texts with the same tags -/

/-- Two texts that end outside markup, if they begin there, and have the same tags. -/
structure SameTags (a b : Text) : Prop where
  left : (scan .data a).1 = .data
  right : (scan .data b).1 = .data
  tags_eq : tags a = tags b

namespace SameTags

variable {a b a' b' : Text}

/-- Markup that is complete. -/
theorem of_complete (h : (scan .data a).1 = .data) : SameTags a a := ⟨h, h, rfl⟩

theorem of_literal {s : String} (hs : s = String.ofList a) (h : (scan .data a).1 = .data) : SameTags s.toList s.toList := by
  subst hs
  rw [String.toList_ofList]
  exact of_complete h

theorem of_not_mem (ha : '<' ∉ a) (hb : '<' ∉ b) : SameTags a b := by
  refine ⟨?_, ?_, ?_⟩
  · rw [scan_of_not_mem (fun _ => step_data) ha]
  · rw [scan_of_not_mem (fun _ => step_data) hb]
  · rw [tags, tags, scan_of_not_mem (fun _ => step_data) ha, scan_of_not_mem (fun _ => step_data) hb]

theorem append (h : SameTags a b) (h' : SameTags a' b') : SameTags (a ++ a') (b ++ b') := by
  refine ⟨?_, ?_, ?_⟩
  · rw [scan_append, h.left]
    exact h'.left
  · rw [scan_append, h.right]
    exact h'.right
  · rw [tags, tags, scan_append, scan_append, h.left, h.right]
    exact congrArg₂ (· ++ ·) h.tags_eq h'.tags_eq

theorem nil : SameTags [] [] := ⟨rfl, rfl, rfl⟩

theorem flatMap {α β : Type*} {f : α → Text} {g : β → Text} {items : List α} {items' : List β}
    (h : List.Forall₂ (fun item item' => SameTags (f item) (g item')) items items') :
    SameTags (items.flatMap f) (items'.flatMap g) := by
  induction h with
  | nil => exact nil
  | cons hitem _ ih => exact hitem.append ih

theorem intercalate {separator : Text} (hseparator : '<' ∉ separator) {parts parts' : List Text}
    (h : List.Forall₂ SameTags parts parts') : SameTags (separator.intercalate parts) (separator.intercalate parts') := by
  induction h with
  | nil => exact nil
  | @cons part part' parts parts' hpart hparts ih =>
    cases hparts with
    | nil => simpa using hpart
    | cons _ _ =>
      rw [List.intercalate_cons_cons, List.intercalate_cons_cons]
      exact (hpart.append (of_not_mem hseparator hseparator)).append ih

end SameTags

/-- A format string, of which these are the literals, with two lists of arguments. -/
inductive Format : List Text → List Text → List Text → Prop
  | nil : Format [] [] []
  | literal {s : String} {text : Text} {literals pieces pieces' : List Text} :
      s = String.ofList text → Format literals pieces pieces' →
      Format (text :: literals) (s.toList :: pieces) (s.toList :: pieces')
  | argument {a b : Text} {literals pieces pieces' : List Text} :
      SameTags a b → Format literals pieces pieces' → Format literals (a :: pieces) (b :: pieces')

/-- Arguments that stand outside tags, and add the same ones, change nothing. -/
theorem Format.sameTags {literals pieces pieces' : List Text} (h : Format literals pieces pieces')
    (hliterals : ∀ text ∈ literals, (scan .data text).1 = .data) : SameTags pieces.flatten pieces'.flatten := by
  induction h with
  | nil => exact .nil
  | literal hs _ ih =>
    rw [List.forall_mem_cons] at hliterals
    exact (SameTags.of_literal hs hliterals.1).append (ih hliterals.2)
  | argument hargument _ ih => exact hargument.append (ih hliterals)

/-! ### Character references -/

/-- The characters that can be read as markup. -/
def special : List Char := ['&', '<', '>', '"', '\'']

/-- A reference for each of them. -/
def reference : Char → Text
  | '&' => ['&', 'a', 'm', 'p', ';']
  | '<' => ['&', 'l', 't', ';']
  | '>' => ['&', 'g', 't', ';']
  | '"' => ['&', 'q', 'u', 'o', 't', ';']
  | '\'' => ['&', '#', '3', '9', ';']
  | c => [c]

/-- Text in which the special characters stand only in references. -/
inductive Escaped : Text → Prop
  | nil : Escaped []
  | plain {c : Char} {text : Text} : c ∉ special → Escaped text → Escaped (c :: text)
  | reference {c : Char} {text : Text} : c ∈ special → Escaped text → Escaped (reference c ++ text)

/-- Text with the references replaced by what they stand for. -/
def decode : Text → Text
  | '&' :: 'a' :: 'm' :: 'p' :: ';' :: text => '&' :: decode text
  | '&' :: 'l' :: 't' :: ';' :: text => '<' :: decode text
  | '&' :: 'g' :: 't' :: ';' :: text => '>' :: decode text
  | '&' :: 'q' :: 'u' :: 'o' :: 't' :: ';' :: text => '"' :: decode text
  | '&' :: '#' :: '3' :: '9' :: ';' :: text => '\'' :: decode text
  | c :: text => c :: decode text
  | [] => []

theorem decode_reference {c : Char} (h : c ∈ special) (text : Text) : decode (reference c ++ text) = c :: decode text := by
  simp only [special, List.mem_cons, List.not_mem_nil, or_false] at h
  rcases h with rfl | rfl | rfl | rfl | rfl <;> rfl

theorem decode_cons {c : Char} (h : c ∉ special) (text : Text) : decode (c :: text) = c :: decode text := by
  have hamp : c ≠ '&' := by
    rintro rfl
    exact h (by decide)
  rw [decode.eq_def]
  split
  all_goals simp_all

theorem not_mem_reference {c : Char} (h : c ∈ special) : '<' ∉ reference c := by
  simp only [special, List.mem_cons, List.not_mem_nil, or_false] at h
  rcases h with rfl | rfl | rfl | rfl | rfl <;> decide

theorem Escaped.not_mem {text : Text} (h : Escaped text) : '<' ∉ text := by
  induction h with
  | nil => exact List.not_mem_nil
  | @plain c text hc _ ih =>
    refine List.not_mem_cons_of_ne_of_not_mem ?_ ih
    rintro rfl
    exact hc (by decide)
  | reference hc _ ih => exact List.not_mem_append (not_mem_reference hc) ih

end Kmsrs.Html
