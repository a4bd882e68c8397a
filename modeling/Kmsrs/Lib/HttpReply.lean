import Kmsrs.Lib.Display
import Kmsrs.Lib.Split
import Kmsrs.Lib.Utf8

/-! Replies of HTTP/1.1 as a client reads them: a status line, fields, an empty line, and a
body as long as the fields say, unless the request asked for none. A reply whose lines cannot
be mistaken for others is read back as it was written. -/

namespace Kmsrs.HttpReply

open Text

structure Message where
  code : ℕ
  reason : Text
  fields : List (Text × Text)
  body : List UInt8
deriving DecidableEq

def version : Text := ['H', 'T', 'T', 'P', '/', '1', '.', '1', ' ']

/-! ### Writing -/

namespace Message

def statusLine (message : Message) : Text := version ++ (decimal message.code ++ ' ' :: message.reason)

def fieldLine (field : Text × Text) : Text := field.1 ++ ':' :: ' ' :: field.2

def lines (message : Message) : List Text := message.statusLine :: message.fields.map fieldLine

def head (message : Message) : Text := message.lines.flatMap (· ++ ['\r', '\n']) ++ ['\r', '\n']

end Message

/-! ### Reading -/

/-- A line, and what follows its end. -/
def readLine : List UInt8 → Option (List UInt8 × List UInt8)
  | [] => none
  | 13 :: 10 :: rest => some ([], rest)
  | byte :: rest => (readLine rest).map fun read => (byte :: read.1, read.2)

/-- The lines up to the first empty one, and what follows that; there are no more than so many. -/
def readLines : ℕ → List UInt8 → Option (List (List UInt8) × List UInt8)
  | 0, _ => none
  | most + 1, bytes =>
    (readLine bytes).bind fun line =>
      if line.1 = [] then some ([], line.2) else (readLines most line.2).map fun more => (line.1 :: more.1, more.2)

def readStatus (line : Text) : Option (ℕ × Text) :=
  if line.take version.length = version then
    (splitOnce ' ' (line.drop version.length)).bind fun status => (readDecimal status.1).map fun code => (code, status.2)
  else none

/-- A field; the space around its value is not part of it. -/
def readField (line : Text) : Option (Text × Text) :=
  (splitOnce ':' line).bind fun field => if field.1 = [] then none else some (field.1, trim field.2)

/-- The first field of a name, in upper or lower case. -/
def field? (fields : List (Text × Text)) (name : Text) : Option Text :=
  (fields.find? fun field => eqIgnoreAsciiCase field.1 name).map Prod.snd

def contentLength : Text := ['C', 'o', 'n', 't', 'e', 'n', 't', '-', 'L', 'e', 'n', 'g', 't', 'h']

/-- A reply, with a body or to a request that asks for none, and what follows it. -/
def read (bodiless : Bool) (bytes : List UInt8) : Option (Message × List UInt8) := do
  let (lines, rest) ← readLines (bytes.length + 1) bytes
  let texts ← lines.mapM fromUtf8
  let (code, reason) ← texts.head?.bind readStatus
  let fields ← texts.tail.mapM readField
  if bodiless then some (⟨code, reason, fields, []⟩, rest)
  else
    let length ← (field? fields contentLength).bind readDecimal
    if length ≤ rest.length then some (⟨code, reason, fields, rest.take length⟩, rest.drop length) else none

/-! ### What is read back -/

/-- Lines that end where they should, and values without space around them. -/
structure Message.Plain (message : Message) : Prop where
  reason : '\r' ∉ message.reason
  fields : ∀ field ∈ message.fields, field.1 ≠ [] ∧ ':' ∉ field.1 ∧ '\r' ∉ field.1 ∧ '\r' ∉ field.2 ∧ trim field.2 = field.2
  length : field? message.fields contentLength = some (decimal message.body.length)

theorem readLine_append {line : List UInt8} (h : 13 ∉ line) (rest : List UInt8) :
    readLine (line ++ 13 :: 10 :: rest) = some (line, rest) := by
  induction line with
  | nil => rfl
  | cons byte line ih =>
    rw [List.mem_cons, not_or] at h
    rw [List.cons_append, readLine, ih h.2]
    · rfl
    · exact fun _ heq => absurd heq.symm h.1

theorem not_mem_toUtf8 {text : Text} (h : '\r' ∉ text) : 13 ∉ toUtf8 text := by
  intro hmem
  rw [toUtf8_eq] at hmem
  obtain ⟨c, hc, hbyte⟩ := List.mem_flatMap.mp hmem
  obtain ⟨-, hnat⟩ := eq_of_mem_utf8EncodeChar hbyte (by decide)
  have hreturn : c = '\r' := Char.toNat_inj.mp hnat
  exact h (hreturn ▸ hc)

theorem toUtf8_end : toUtf8 ['\r', '\n'] = [13, 10] := by decide +kernel

theorem readLines_append {lines : List Text} {most : ℕ} (hmost : lines.length < most)
    (h : ∀ line ∈ lines, line ≠ [] ∧ '\r' ∉ line) (rest : List UInt8) :
    readLines most (toUtf8 (lines.flatMap (· ++ ['\r', '\n']) ++ ['\r', '\n']) ++ rest) = some (lines.map toUtf8, rest) := by
  induction lines generalizing most with
  | nil =>
    obtain ⟨most, rfl⟩ : ∃ n, most = n + 1 := ⟨most - 1, by simp at hmost; omega⟩
    rw [List.flatMap_nil, List.nil_append, toUtf8_end]
    rfl
  | cons line lines ih =>
    obtain ⟨most, rfl⟩ : ∃ n, most = n + 1 := ⟨most - 1, by simp at hmost; omega⟩
    obtain ⟨hne, hreturn⟩ := h line List.mem_cons_self
    have hmore := ih (Nat.lt_of_succ_lt_succ hmost) fun other hmem => h other (List.mem_cons_of_mem _ hmem)
    rw [List.flatMap_cons, List.append_assoc, List.append_assoc, toUtf8_append, toUtf8_append, toUtf8_end, List.append_assoc,
      List.append_assoc, readLines, show ([13, 10] : List UInt8) ++ (toUtf8 (lines.flatMap (· ++ ['\r', '\n']) ++ ['\r', '\n']) ++ rest) =
        13 :: 10 :: (toUtf8 (lines.flatMap (· ++ ['\r', '\n']) ++ ['\r', '\n']) ++ rest) from rfl,
      readLine_append (not_mem_toUtf8 hreturn), Option.bind_some, if_neg fun h => hne (toUtf8_eq_nil_iff.mp h), hmore]
    rfl

theorem readStatus_statusLine (message : Message) : readStatus message.statusLine = some (message.code, message.reason) := by
  have hspace : ' ' ∉ decimal message.code := fun hmem => absurd (isDigit_decimal hmem) (by decide)
  rw [readStatus, Message.statusLine, List.take_left, if_pos rfl, List.drop_left, splitOnce_append hspace, Option.bind_some,
    readDecimal_decimal]
  rfl

theorem readField_fieldLine {field : Text × Text} (hne : field.1 ≠ []) (hcolon : ':' ∉ field.1) (htrim : trim field.2 = field.2) :
    readField (Message.fieldLine field) = some field := by
  have hspace : trim (' ' :: field.2) = trim field.2 := by
    rw [trim, trimStart, List.dropWhile_cons_of_pos (by decide)]
    rfl
  rw [readField, Message.fieldLine, splitOnce_append hcolon, Option.bind_some, if_neg hne, hspace, htrim]

variable {message : Message}

theorem Message.Plain.lines (h : message.Plain) : ∀ line ∈ message.lines, line ≠ [] ∧ '\r' ∉ line := by
  intro line hmem
  rcases List.mem_cons.mp hmem with rfl | hmem
  · have hcode : '\r' ∉ decimal message.code := fun hmem => absurd (isDigit_decimal hmem) (by decide)
    have hversion : '\r' ∉ version := by decide
    have := h.reason
    exact ⟨by simp [statusLine], by simp_all [statusLine]⟩
  · obtain ⟨field, hfield, rfl⟩ := List.mem_map.mp hmem
    obtain ⟨-, -, hname, hvalue, -⟩ := h.fields field hfield
    exact ⟨by simp [fieldLine], by simp_all [fieldLine]⟩

theorem mapM_fromUtf8 (lines : List Text) : (lines.map toUtf8).mapM fromUtf8 = some lines := by
  induction lines with
  | nil => rfl
  | cons line lines ih =>
    rw [List.map_cons, List.mapM_cons, fromUtf8_eq_some_iff.mpr rfl, ih]
    rfl

theorem mapM_readField {fields : List (Text × Text)}
    (h : ∀ field ∈ fields, field.1 ≠ [] ∧ ':' ∉ field.1 ∧ trim field.2 = field.2) :
    (fields.map Message.fieldLine).mapM readField = some fields := by
  induction fields with
  | nil => rfl
  | cons field fields ih =>
    obtain ⟨hne, hcolon, htrim⟩ := h field List.mem_cons_self
    rw [List.map_cons, List.mapM_cons, readField_fieldLine hne hcolon htrim,
      ih fun other hmem => h other (List.mem_cons_of_mem _ hmem)]
    rfl

theorem length_lines_le (lines : List Text) : lines.length ≤ (toUtf8 (lines.flatMap (· ++ ['\r', '\n']))).length := by
  induction lines with
  | nil => exact Nat.zero_le _
  | cons line lines ih =>
    rw [List.flatMap_cons, toUtf8_append, toUtf8_append, toUtf8_end, List.length_cons, List.length_append, List.length_append]
    simp only [List.length_cons]
    omega

theorem readLines_head (h : message.Plain) (rest : List UInt8) :
    readLines ((toUtf8 message.head ++ rest).length + 1) (toUtf8 message.head ++ rest) = some (message.lines.map toUtf8, rest) := by
  have hlength := length_lines_le message.lines
  rw [Message.head]
  refine readLines_append ?_ h.lines rest
  rw [toUtf8_append, List.length_append, List.length_append]
  exact Nat.lt_succ_of_le (hlength.trans ((Nat.le_add_right _ _).trans (Nat.le_add_right _ _)))

/-- A reply is read back as it was written, whatever follows it. -/
theorem read_head (h : message.Plain) (bodiless : Bool) (rest : List UInt8) :
    read bodiless (toUtf8 message.head ++ (if bodiless then rest else message.body ++ rest)) =
      some (if bodiless then { message with body := [] } else message, rest) := by
  have hfields : ∀ field ∈ message.fields, field.1 ≠ [] ∧ ':' ∉ field.1 ∧ trim field.2 = field.2 := fun field hmem =>
    ⟨(h.fields field hmem).1, (h.fields field hmem).2.1, (h.fields field hmem).2.2.2.2⟩
  rw [read, readLines_head h]
  simp only [Option.bind_eq_bind, Option.bind_some, mapM_fromUtf8]
  rw [Message.lines, List.head?_cons, Option.bind_some, readStatus_statusLine, List.tail_cons]
  simp only [Option.bind_some, mapM_readField hfields]
  cases bodiless with
  | true => rfl
  | false =>
    simp only [h.length, Option.bind_some, readDecimal_decimal, Bool.false_eq_true, if_false]
    rw [if_pos (by simp), List.take_left, List.drop_left]

end Kmsrs.HttpReply
