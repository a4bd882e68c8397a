import Kmsrs.Lib.Display
import Kmsrs.Lib.Lines

/-! The exposition format of Prometheus (0.0.4): lines of help, of type, and of samples with
their labels. In the value of a label a backslash, a quote and a line feed are escaped, and
so a value neither ends its string nor its line. What is rendered is read back. -/

namespace Kmsrs.Exposition

open Text

inductive Line where
  | help (name text : Text)
  | type (name kind : Text)
  | sample (name : Text) (labels : List (Text × Text)) (value : ℕ)
deriving DecidableEq

/-! ### Writing -/

def escapeCharacter (c : Char) : Text :=
  if c = '\\' then ['\\', '\\'] else if c = '"' then ['\\', '"'] else if c = '\n' then ['\\', 'n'] else [c]

/-- The value of a label, as it stands between quotes. -/
def escape (value : Text) : Text := value.flatMap escapeCharacter

def labelText (label : Text × Text) : Text := label.1 ++ '=' :: '"' :: (escape label.2 ++ ['"'])

def labelsTail : List (Text × Text) → Text
  | [] => ['}']
  | label :: labels => ',' :: (labelText label ++ labelsTail labels)

def labelsText : List (Text × Text) → Text
  | [] => []
  | label :: labels => '{' :: (labelText label ++ labelsTail labels)

def Line.text : Line → Text
  | .help name text => '#' :: ' ' :: 'H' :: 'E' :: 'L' :: 'P' :: ' ' :: (name ++ ' ' :: text)
  | .type name kind => '#' :: ' ' :: 'T' :: 'Y' :: 'P' :: 'E' :: ' ' :: (name ++ ' ' :: kind)
  | .sample name labels value => name ++ (labelsText labels ++ ' ' :: decimal value)

def render (lines : List Line) : Text := lines.flatMap fun line => line.text ++ ['\n']

/-! ### Reading -/

/-- The value of a label up to its closing quote, and what follows. -/
def readQuoted : Text → Option (Text × Text)
  | [] => none
  | '"' :: rest => some ([], rest)
  | '\\' :: '\\' :: rest => (readQuoted rest).map fun read => ('\\' :: read.1, read.2)
  | '\\' :: '"' :: rest => (readQuoted rest).map fun read => ('"' :: read.1, read.2)
  | '\\' :: 'n' :: rest => (readQuoted rest).map fun read => ('\n' :: read.1, read.2)
  | '\\' :: _ => none
  | c :: rest => (readQuoted rest).map fun read => (c :: read.1, read.2)

def nameCharacter (c : Char) : Bool := c.isAlphanum || c = '_' || c = ':'

/-- A name, and what follows. -/
def readName (text : Text) : Option (Text × Text) :=
  let name := text.takeWhile nameCharacter
  if name = [] then none else some (name, text.dropWhile nameCharacter)

/-- One label behind its bracket or comma. -/
def readLabel (text : Text) : Option ((Text × Text) × Text) :=
  (readName text).bind fun name =>
    match name.2 with
    | '=' :: '"' :: rest => (readQuoted rest).map fun value => ((name.1, value.1), value.2)
    | _ => none

/-- The labels up to the closing bracket; there are no more than so many. -/
def readLabels : ℕ → Text → Option (List (Text × Text) × Text)
  | 0, _ => none
  | most + 1, text =>
    (readLabel text).bind fun label =>
      match label.2 with
      | '}' :: rest => some ([label.1], rest)
      | ',' :: rest => (readLabels most rest).map fun more => (label.1 :: more.1, more.2)
      | _ => none

/-- A sample behind its name and labels. -/
def readSample (name : Text) (labels : List (Text × Text)) : Text → Option Line
  | ' ' :: value => (readDecimal value).map (.sample name labels)
  | _ => none

def readNamed (make : Text → Text → Line) (text : Text) : Option Line :=
  (readName text).bind fun name =>
    match name.2 with
    | ' ' :: rest => some (make name.1 rest)
    | _ => none

def readLine : Text → Option Line
  | '#' :: ' ' :: 'H' :: 'E' :: 'L' :: 'P' :: ' ' :: rest => readNamed .help rest
  | '#' :: ' ' :: 'T' :: 'Y' :: 'P' :: 'E' :: ' ' :: rest => readNamed .type rest
  | text =>
    (readName text).bind fun name =>
      match name.2 with
      | '{' :: rest => (readLabels rest.length rest).bind fun labels => readSample name.1 labels.1 labels.2
      | rest => readSample name.1 [] rest

/-- The lines of a page, each of which is ended. -/
def read (page : Text) : Option (List Line) :=
  let (lines, left) := Lines.cut '\n' [] page
  if left = [] then lines.mapM fun line => readLine line.dropLast else none

/-- The number of a name, without labels. -/
def value? (lines : List Line) (name : Text) : Option ℕ :=
  lines.findSome? fun
    | .sample found [] value => if found = name then some value else none
    | _ => none

/-- The labels of a name whose number is one. -/
def labels? (lines : List Line) (name : Text) : Option (List (Text × Text)) :=
  lines.findSome? fun
    | .sample found labels value => if found = name ∧ value = 1 then some labels else none
    | _ => none

/-! ### What is read back -/

def Name (name : Text) : Prop := name ≠ [] ∧ ∀ c ∈ name, nameCharacter c

instance (name : Text) : Decidable (Name name) := inferInstanceAs (Decidable (_ ∧ _))

/-- A line that can be told from others. -/
def Line.Plain : Line → Prop
  | .help name text => Name name ∧ '\n' ∉ text
  | .type name kind => Name name ∧ '\n' ∉ kind
  | .sample name labels _ => Name name ∧ ∀ label ∈ labels, Name label.1

theorem readQuoted_escape (value rest : Text) : readQuoted (escape value ++ '"' :: rest) = some (value, rest) := by
  induction value with
  | nil => rfl
  | cons c value ih =>
    rw [escape, List.flatMap_cons, ← escape, List.append_assoc]
    by_cases hslash : c = '\\'
    · subst hslash
      exact congrArg (Option.map _) ih
    by_cases hquote : c = '"'
    · subst hquote
      exact congrArg (Option.map _) ih
    by_cases hline : c = '\n'
    · subst hline
      exact congrArg (Option.map _) ih
    rw [escapeCharacter, if_neg hslash, if_neg hquote, if_neg hline, List.singleton_append, readQuoted, ih]
    · rfl
    · exact hquote
    · exact fun _ h => absurd h hslash
    · exact fun _ h => absurd h hslash
    · exact fun _ h => absurd h hslash
    · exact hslash

theorem newline_not_mem_escape (value : Text) : '\n' ∉ escape value := by
  intro h
  obtain ⟨c, -, hc⟩ := List.mem_flatMap.mp h
  rw [escapeCharacter] at hc
  split_ifs at hc with _ _ hline
  · simp at hc
  · simp at hc
  · simp at hc
  · exact hline (List.mem_singleton.mp hc).symm

theorem readName_append {name : Text} (h : Name name) {rest : Text} (hrest : ∀ c ∈ rest.head?, nameCharacter c = false) :
    readName (name ++ rest) = some (name, rest) := by
  have hstop : rest.takeWhile nameCharacter = [] ∧ rest.dropWhile nameCharacter = rest := by
    cases rest with
    | nil => exact ⟨rfl, rfl⟩
    | cons c rest => simp [hrest c rfl]
  rw [readName, List.takeWhile_append_of_pos h.2, List.dropWhile_append_of_pos h.2, hstop.1, hstop.2, List.append_nil]
  exact if_neg h.1

theorem readLabel_append {label : Text × Text} (h : Name label.1) (rest : Text) :
    readLabel (labelText label ++ rest) = some (label, rest) := by
  rw [readLabel, labelText, List.append_assoc, List.cons_append, List.cons_append, List.append_assoc, List.singleton_append,
    readName_append h (by simp [nameCharacter])]
  simp only [Option.bind_some, readQuoted_escape, Option.map_some]

theorem readLabels_append {most : ℕ} {label : Text × Text} {labels : List (Text × Text)} (hmost : labels.length < most)
    (h : ∀ found ∈ label :: labels, Name found.1) (rest : Text) :
    readLabels most (labelText label ++ (labelsTail labels ++ rest)) = some (label :: labels, rest) := by
  induction labels generalizing most label with
  | nil =>
    obtain ⟨most, rfl⟩ : ∃ n, most = n + 1 := ⟨most - 1, by simp at hmost; omega⟩
    rw [readLabels, readLabel_append (h label List.mem_cons_self)]
    rfl
  | cons next labels ih =>
    obtain ⟨most, rfl⟩ : ∃ n, most = n + 1 := ⟨most - 1, by simp at hmost; omega⟩
    rw [readLabels, readLabel_append (h label List.mem_cons_self), labelsTail, List.cons_append, List.append_assoc]
    have hmore := ih (Nat.lt_of_succ_lt_succ hmost) fun found hmem => h found (List.mem_cons_of_mem _ hmem)
    simp only [Option.bind_some, hmore, Option.map_some]

theorem length_labels_le (labels : List (Text × Text)) : labels.length < (labelsTail labels).length := by
  induction labels with
  | nil => exact Nat.one_pos
  | cons label labels ih =>
    rw [labelsTail, List.length_cons, List.length_cons, List.length_append]
    omega

theorem Name.newline_not_mem {name : Text} (h : Name name) : '\n' ∉ name := fun hmem =>
  absurd (h.2 _ hmem) (by decide)

theorem readNamed_append (make : Text → Text → Line) {name : Text} (h : Name name) (rest : Text) :
    readNamed make (name ++ ' ' :: rest) = some (make name rest) := by
  rw [readNamed, readName_append h (by simp [nameCharacter])]
  rfl

theorem readSample_decimal (name : Text) (labels : List (Text × Text)) (value : ℕ) :
    readSample name labels (' ' :: decimal value) = some (.sample name labels value) := by
  rw [readSample, readDecimal_decimal]
  rfl

theorem readLine_text {line : Line} (h : line.Plain) : readLine line.text = some line := by
  cases line with
  | help name text => exact readNamed_append .help h.1 text
  | type name kind => exact readNamed_append .type h.1 kind
  | sample name labels value =>
    obtain ⟨hname, hlabels⟩ := h
    have hhash : ∀ rest, name ++ (labelsText labels ++ ' ' :: decimal value) ≠ '#' :: rest := by
      intro rest heq
      cases name with
      | nil => exact hname.1 rfl
      | cons c name =>
        obtain rfl : c = '#' := (List.cons.inj heq).1
        exact absurd (hname.2 '#' List.mem_cons_self) (by decide)
    rw [Line.text, readLine]
    · cases labels with
      | nil =>
        rw [labelsText, List.nil_append, readName_append hname (by simp [nameCharacter])]
        exact readSample_decimal name [] value
      | cons label labels =>
        rw [labelsText, List.cons_append, List.append_assoc, readName_append hname (by simp [nameCharacter])]
        have hmost : labels.length < (labelText label ++ (labelsTail labels ++ ' ' :: decimal value)).length := by
          have := length_labels_le labels
          rw [List.length_append, List.length_append]
          omega
        simp only [Option.bind_some, readLabels_append hmost hlabels, readSample_decimal]
    · exact fun rest heq => hhash _ heq
    · exact fun rest heq => hhash _ heq

theorem newline_not_mem_labelText {label : Text × Text} (h : Name label.1) : '\n' ∉ labelText label := by
  have := h.newline_not_mem
  have := newline_not_mem_escape label.2
  simp_all [labelText]

theorem newline_not_mem_labelsTail {labels : List (Text × Text)} (h : ∀ label ∈ labels, Name label.1) :
    '\n' ∉ labelsTail labels := by
  induction labels with
  | nil => decide
  | cons label labels ih =>
    have hlabel := newline_not_mem_labelText (h label List.mem_cons_self)
    have hmore := ih fun other hmem => h other (List.mem_cons_of_mem _ hmem)
    rw [labelsTail, List.mem_cons, List.mem_append]
    exact not_or.mpr ⟨by decide, not_or.mpr ⟨hlabel, hmore⟩⟩

theorem newline_not_mem_text {line : Line} (h : line.Plain) : '\n' ∉ line.text := by
  cases line with
  | help name text =>
    have := h.1.newline_not_mem
    have := h.2
    simp_all [Line.text]
  | type name kind =>
    have := h.1.newline_not_mem
    have := h.2
    simp_all [Line.text]
  | sample name labels value =>
    have hvalue : '\n' ∉ decimal value := fun hmem => absurd (isDigit_decimal hmem) (by decide)
    have hlabels : '\n' ∉ labelsText labels := by
      cases labels with
      | nil => exact List.not_mem_nil
      | cons label labels =>
        rw [labelsText, List.mem_cons, List.mem_append]
        exact not_or.mpr ⟨by decide, not_or.mpr ⟨newline_not_mem_labelText (h.2 label List.mem_cons_self),
          newline_not_mem_labelsTail fun other hmem => h.2 other (List.mem_cons_of_mem _ hmem)⟩⟩
    rw [Line.text, List.mem_append, List.mem_append, List.mem_cons]
    exact not_or.mpr ⟨h.1.newline_not_mem, not_or.mpr ⟨hlabels, not_or.mpr ⟨by decide, hvalue⟩⟩⟩

/-- What is rendered is read back, with the values of its labels as they were. -/
theorem read_render {lines : List Line} (h : ∀ line ∈ lines, line.Plain) : read (render lines) = some lines := by
  have hread := Lines.mapM_dropLast '\n' Line.text readLine id fun line hmem => readLine_text (h line hmem)
  rw [List.map_id] at hread
  rw [read, render, Lines.cut_flatMap Line.text fun line hmem => newline_not_mem_text (h line hmem)]
  exact hread

end Kmsrs.Exposition
