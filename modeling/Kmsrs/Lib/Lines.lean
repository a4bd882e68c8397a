import Kmsrs.Lib.Rows

/-! Cutting a stream into lines. A line ends with the separator and keeps it; what comes
behind the last separator is left over, and is the front of the next line. -/

namespace Kmsrs.Lines

variable {α : Type*} [DecidableEq α] (separator : α)

/-- The lines of a stream that begins with `line`, and what is left over. -/
def cut (line : List α) : List α → List (List α) × List α
  | [] => ([], line)
  | c :: rest =>
    if c = separator then ((line ++ [c]) :: (cut [] rest).1, (cut [] rest).2)
    else cut (line ++ [c]) rest

variable {separator}

/-- Cutting in two goes is cutting in one. -/
theorem cut_append (line before after : List α) :
    cut separator line (before ++ after) =
      ((cut separator line before).1 ++ (cut separator (cut separator line before).2 after).1,
        (cut separator (cut separator line before).2 after).2) := by
  induction before generalizing line with
  | nil => rfl
  | cons c before ih =>
    rw [List.cons_append, cut, cut]
    split_ifs
    · rw [ih]
      rfl
    · exact ih _

theorem cut_of_not_mem (line : List α) {stream : List α} (h : separator ∉ stream) :
    cut separator line stream = ([], line ++ stream) := by
  induction stream generalizing line with
  | nil => rw [cut, List.append_nil]
  | cons c stream ih =>
    rw [List.mem_cons, not_or] at h
    rw [cut, if_neg (Ne.symm h.1), ih _ h.2, List.append_assoc, List.singleton_append]

/-- What is left over begins a line as if it had just come. -/
theorem cut_nil_append {line : List α} (h : separator ∉ line) (stream : List α) :
    cut separator [] (line ++ stream) = cut separator line stream := by
  rw [cut_append, cut_of_not_mem [] h]
  rfl

/-- What the stream began with is in its first line only. -/
theorem cut_of_mem {stream : List α} (h : separator ∈ stream) :
    ∃ first more left, first ≠ [] ∧ ∀ line, cut separator line stream = ((line ++ first) :: more, left) := by
  induction stream with
  | nil => exact absurd h List.not_mem_nil
  | cons c stream ih =>
    by_cases hc : c = separator
    · exact ⟨[c], (cut separator [] stream).1, (cut separator [] stream).2, by simp, fun line => by rw [cut, if_pos hc]⟩
    · obtain ⟨first, more, left, -, hcut⟩ := ih (List.mem_of_ne_of_mem (Ne.symm hc) h)
      refine ⟨c :: first, more, left, by simp, fun line => ?_⟩
      rw [cut, if_neg hc, hcut, List.append_assoc, List.singleton_append]

theorem not_mem_left {line : List α} (h : separator ∉ line) (stream : List α) :
    separator ∉ (cut separator line stream).2 := by
  induction stream generalizing line with
  | nil => exact h
  | cons c stream ih =>
    rw [cut]
    split_ifs with hc
    · exact ih List.not_mem_nil
    · exact ih (List.not_mem_append h (by simpa using Ne.symm hc))

/-- The lines and what is left over are the stream. -/
theorem flatten_cut (separator : α) (line stream : List α) :
    (cut separator line stream).1.flatten ++ (cut separator line stream).2 = line ++ stream := by
  induction stream generalizing line with
  | nil => rw [cut, List.flatten_nil, List.nil_append, List.append_nil]
  | cons c stream ih =>
    rw [cut]
    split_ifs
    · rw [List.flatten_cons, List.append_assoc, ih, List.append_assoc, List.nil_append, List.singleton_append]
    · rw [ih, List.append_assoc, List.singleton_append]

/-- No line is longer than the stream. -/
theorem length_le_of_mem_cut {line stream : List α} {found : List α} (h : found ∈ (cut separator line stream).1) :
    found.length ≤ (line ++ stream).length := by
  have hlength := congrArg List.length (flatten_cut separator line stream)
  rw [List.length_append] at hlength
  have := (List.infix_of_mem_flatten h).length_le
  omega

theorem length_left_le (line stream : List α) : (cut separator line stream).2.length ≤ (line ++ stream).length := by
  have hlength := congrArg List.length (flatten_cut separator line stream)
  rw [List.length_append] at hlength
  omega


/-! ### Streams of whole lines -/

variable {ι β : Type*}

/-- A stream that is written line by line is cut where it was written. -/
theorem cut_flatMap (text : ι → List α) {items : List ι} (h : ∀ item ∈ items, separator ∉ text item) :
    cut separator [] (items.flatMap fun item => text item ++ [separator]) = (items.map fun item => text item ++ [separator], []) := by
  induction items with
  | nil => rfl
  | cons item items ih =>
    rw [List.flatMap_cons, List.append_assoc, cut_nil_append (h item List.mem_cons_self), List.singleton_append, cut, if_pos rfl,
      ih fun other hmem => h other (List.mem_cons_of_mem _ hmem)]
    rfl

omit [DecidableEq α] in
/-- Where each line is read, all of them are. -/
theorem mapM_dropLast (ending : α) (text : ι → List α) (read : List α → Option β) (value : ι → β) {items : List ι}
    (h : ∀ item ∈ items, read (text item) = some (value item)) :
    (items.map fun item => text item ++ [ending]).mapM (fun line => read line.dropLast) = some (items.map value) := by
  induction items with
  | nil => rfl
  | cons item items ih =>
    rw [List.map_cons, List.mapM_cons, List.dropLast_concat, h item List.mem_cons_self,
      ih fun other hmem => h other (List.mem_cons_of_mem _ hmem)]
    rfl

end Kmsrs.Lines
