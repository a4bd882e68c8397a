import Kmsrs.Lib.Display
import Kmsrs.Lib.Find

/-! Words and the space between them. A text of words with single spaces between them
is the text of its words again, has no space to trim, and stays such a text when
something is replaced inside its words. -/

namespace Kmsrs.Text

/-- `split_whitespace` -/
def words (text : Text) : List Text := (text.splitOnP isWhitespace).filter (· ≠ [])

/-- Each run of white space becomes one space. -/
def collapse (text : Text) : Text := [' '].intercalate (words text)

/-- Words without white space, one space between two of them. -/
def SingleSpaced (text : Text) : Prop := ∀ word ∈ text.splitOn ' ', word ≠ [] ∧ ∀ c ∈ word, ¬ isWhitespace c

instance (text : Text) : Decidable (SingleSpaced text) :=
  inferInstanceAs (Decidable (∀ word ∈ text.splitOn ' ', word ≠ [] ∧ ∀ c ∈ word, ¬ isWhitespace c))

theorem splitOnP_congr {p q : Char → Bool} {text : Text} (h : ∀ c ∈ text, p c = q c) : text.splitOnP p = text.splitOnP q := by
  induction text with
  | nil => rfl
  | cons c text ih =>
    rw [List.forall_mem_cons] at h
    rw [List.splitOnP_cons_eq_if_modifyHead, List.splitOnP_cons_eq_if_modifyHead, h.1, ih h.2]

section

variable {text : Text} (h : SingleSpaced text)

include h

theorem SingleSpaced.isWhitespace_iff {c : Char} (hc : c ∈ text) : isWhitespace c ↔ c = ' ' := by
  have honly : ∀ c ∈ [' '].intercalate (text.splitOn ' '), isWhitespace c → c = ' ' :=
    forall_mem_intercalate (by simp) fun word hword c hc hspace => absurd hspace ((h word hword).2 c hc)
  rw [List.intercalate_splitOn] at honly
  refine ⟨honly c hc, ?_⟩
  rintro rfl
  rfl

theorem SingleSpaced.words_eq : words text = text.splitOn ' ' := by
  have hsplit : text.splitOnP isWhitespace = text.splitOn ' ' := by
    refine splitOnP_congr fun c hc => ?_
    rw [Bool.eq_iff_iff, h.isWhitespace_iff hc, beq_iff_eq]
  rw [words, hsplit, List.filter_eq_self]
  exact fun word hword => decide_eq_true (h word hword).1

theorem SingleSpaced.collapse_eq : collapse text = text := by
  rw [collapse, h.words_eq, List.intercalate_splitOn]

/-- A space at the beginning or the end would have an empty word beside it. -/
theorem SingleSpaced.trim_eq : trim text = text := by
  have hne : ([] : Text) ∉ text.splitOn ' ' := fun hmem => (h [] hmem).1 rfl
  have hstart : trimStart text = text := by
    rw [trimStart, List.dropWhile_eq_self_iff]
    intro hpos hspace
    obtain ⟨c, rest, rfl⟩ := List.exists_cons_of_length_pos hpos
    obtain rfl := (h.isWhitespace_iff List.mem_cons_self).mp hspace
    rw [List.splitOn_cons_eq_if_modifyHead, if_pos (by simp)] at hne
    exact hne List.mem_cons_self
  have hend : trimEnd text = text := by
    rw [trimEnd, List.rdropWhile_eq_self_iff]
    intro hnil hspace
    have hlast := (h.isWhitespace_iff (List.getLast_mem hnil)).mp hspace
    have hcut := List.dropLast_append_getLast hnil
    rw [hlast] at hcut
    rw [← hcut, List.splitOn_append_cons_self, List.splitOn_nil] at hne
    exact hne (List.mem_append_right _ List.mem_cons_self)
  rw [trim, hstart, hend]

theorem SingleSpaced.ne_nil : text ≠ [] := by
  rintro rfl
  exact (h [] (by rw [List.splitOn_nil]; exact List.mem_cons_self)).1 rfl

/-- Something that is not empty in the place of something inside a word. -/
theorem SingleSpaced.replace {needle new : Text} (hneedle : needle ≠ []) (hspace : ' ' ∉ needle) (hnew : new ≠ [])
    (hchars : ∀ c ∈ new, ¬ isWhitespace c) : SingleSpaced (replace needle new text) := by
  have hword : ∀ word ∈ (text.splitOn ' ').map (Text.replace needle new), word ≠ [] ∧ ∀ c ∈ word, ¬ isWhitespace c := by
    intro word hword
    obtain ⟨before, hbefore, rfl⟩ := List.mem_map.mp hword
    refine ⟨replace_ne_nil hneedle hnew (h before hbefore).1, fun c hc => ?_⟩
    exact (mem_of_mem_replace hneedle hc).elim ((h before hbefore).2 c) (hchars c)
  have hsplit : (Text.replace needle new text).splitOn ' ' = (text.splitOn ' ').map (Text.replace needle new) := by
    refine splitOn_eq_iff.mpr ⟨by simp, fun word hmem hsep => ?_, ?_⟩
    · exact (hword word hmem).2 ' ' hsep rfl
    · rw [← replace_intercalate hneedle hspace, List.intercalate_splitOn]
  rw [SingleSpaced, hsplit]
  exact hword

end

end Kmsrs.Text
