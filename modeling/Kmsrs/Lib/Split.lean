import Kmsrs.Lib.Text

/-! Texts in pieces: the pieces between separators are those that have no separator in them
and come to the text when they are joined again. -/

namespace Kmsrs

variable {α : Type*}

/-! ### One separator -/

section
variable [DecidableEq α] {separator : α}

theorem not_mem_of_mem_splitOn {list piece : List α} (h : piece ∈ list.splitOn separator) : separator ∉ piece := by
  induction list generalizing piece with
  | nil =>
    rw [List.splitOn_nil, List.mem_singleton] at h
    rw [h]
    exact List.not_mem_nil
  | cons a list ih =>
    rw [List.splitOn_cons_eq_if_modifyHead] at h
    split_ifs at h with ha
    · rcases List.mem_cons.mp h with rfl | hlater
      · exact List.not_mem_nil
      · exact ih hlater
    · have hne : separator ≠ a := by
        rintro rfl
        exact ha (beq_self_eq_true _)
      obtain ⟨first, more, hpieces⟩ := List.exists_cons_of_ne_nil (List.splitOn_ne_nil separator list)
      rw [hpieces, List.modifyHead_cons] at h
      rcases List.mem_cons.mp h with rfl | hlater
      · have hfirst : separator ∉ first := ih (by rw [hpieces]; exact List.mem_cons_self)
        exact List.not_mem_cons_of_ne_of_not_mem hne hfirst
      · exact ih (by rw [hpieces]; exact List.mem_cons_of_mem _ hlater)

/-- The pieces of a list. -/
theorem splitOn_eq_iff {list : List α} {pieces : List (List α)} : list.splitOn separator = pieces ↔
    pieces ≠ [] ∧ (∀ piece ∈ pieces, separator ∉ piece) ∧ [separator].intercalate pieces = list := by
  constructor
  · rintro rfl
    exact ⟨List.splitOn_ne_nil _ _, fun piece h => not_mem_of_mem_splitOn h, List.intercalate_splitOn _⟩
  · rintro ⟨hne, hpieces, rfl⟩
    exact List.splitOn_intercalate _ hpieces hne

end

theorem Text.splitOnce_append {c : Char} {before : Text} (h : c ∉ before) (after : Text) :
    splitOnce c (before ++ c :: after) = some (before, after) := by
  have hpass : ∀ d ∈ before, decide (d ≠ c) = true := fun d hd => decide_eq_true fun hdc => h (hdc ▸ hd)
  rw [splitOnce, if_pos (by simp), List.takeWhile_append_of_pos hpass, List.dropWhile_append_of_pos hpass]
  simp

/-- A text is cut at the first separator. -/
theorem Text.splitOnce_eq_some_iff {c : Char} {text before after : Text} :
    splitOnce c text = some (before, after) ↔ text = before ++ c :: after ∧ c ∉ before := by
  constructor
  · intro h
    have hmem : c ∈ text := by
      by_contra hnot
      rw [splitOnce, if_neg hnot] at h
      cases h
    obtain ⟨front, back, rfl, hfront⟩ := List.eq_append_cons_of_mem hmem
    rw [splitOnce_append hfront, Option.some.injEq, Prod.mk.injEq] at h
    obtain ⟨rfl, rfl⟩ := h
    exact ⟨rfl, hfront⟩
  · rintro ⟨rfl, hbefore⟩
    exact splitOnce_append hbefore after

/-- What has no separator in it does not reach across one. -/
theorem prefix_of_prefix_append_cons {α : Type*} {c : α} {front before after : List α} (h : front <+: before ++ c :: after)
    (hfront : c ∉ front) : front <+: before := by
  obtain ⟨rest, h⟩ := h
  rcases List.append_eq_append_iff.mp h with ⟨more, rfl, -⟩ | ⟨more, rfl, hmore⟩
  · exact List.prefix_append _ _
  · cases more with
    | nil => rw [List.append_nil]
    | cons d more =>
      rw [List.cons_append, List.cons.injEq] at hmore
      exact absurd (List.mem_append_right before (by rw [hmore.1]; exact List.mem_cons_self)) hfront

/-! ### Lines -/

/-- Two marks in a row are not in the list. -/
def Unmarked (a b : α) (list : List α) : Prop := ¬ [a, b] <:+: list

theorem unmarked_nil {a b : α} : Unmarked a b [] := by simp [Unmarked]

theorem unmarked_cons_iff {a b c : α} {list : List α} :
    Unmarked a b (c :: list) ↔ ¬ (c = a ∧ list.head? = some b) ∧ Unmarked a b list := by
  rw [Unmarked, Unmarked, List.infix_cons_iff, not_or]
  refine and_congr_left fun _ => not_congr ?_
  cases list with
  | nil => simp
  | cons d list => simp [eq_comm]

end Kmsrs
