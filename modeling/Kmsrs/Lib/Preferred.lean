import Mathlib.Data.List.Perm.Basic
import Kmsrs.Lib.Rows

/-! The first element of a list that is good, or the first of all where none is. Read
piece by piece, it is preferred among what each piece prefers; in other orders of the
list it is any element that can be. -/

namespace Kmsrs.Preferred

variable {α β : Type*} (good : α → Bool)

def preferred (xs : List α) : Option α := (xs.find? good).or xs.head?

/-- A later element takes the place of the one kept only if it alone is good. -/
def keep (later : α) : Option α → α
  | none => later
  | some kept => if !good kept && good later then later else kept

/-- Some order prefers it. -/
def Candidate (xs : List α) (x : α) : Prop := x ∈ xs ∧ (good x ∨ ∀ y ∈ xs, ¬ good y)

@[simp] theorem preferred_nil : preferred good ([] : List α) = none := rfl

variable {good} {xs ys : List α} {x : α}

theorem preferred_of_good (h : good x) (xs : List α) : preferred good (x :: xs) = some x := by
  simp [preferred, h]

theorem preferred_of_none (h : ∀ y ∈ xs, ¬ good y) : preferred good xs = xs.head? := by
  have hnone : xs.find? good = none := List.find?_eq_none.mpr h
  rw [preferred, hnone, Option.none_or]

theorem preferred_cons (x : α) (xs : List α) :
    preferred good (x :: xs) = if good x then some x else (xs.find? good).or (some x) := by
  by_cases h : good x <;> simp [preferred, h]

theorem preferred_eq_none_iff : preferred good xs = none ↔ xs = [] := by
  cases xs with
  | nil => simp
  | cons x xs => simp [preferred]

theorem candidate_of_preferred (h : preferred good xs = some x) : Candidate good xs x := by
  rw [preferred, Option.or_eq_some_iff] at h
  rcases h with hfound | ⟨hnone, hhead⟩
  · exact ⟨List.mem_of_find?_eq_some hfound, .inl (List.find?_some hfound)⟩
  · exact ⟨List.mem_of_head? hhead, .inr (List.find?_eq_none.mp hnone)⟩

theorem preferred_map (f : β → α) (xs : List β) : preferred good (xs.map f) = (preferred (fun x => good (f x)) xs).map f := by
  rw [preferred, preferred, List.find?_map, List.head?_map]
  cases h : xs.find? fun x => good (f x) with
  | some x => simp [h]
  | none => simp [h]

/-- A candidate is preferred where it comes first. -/
theorem Candidate.preferred_cons (h : Candidate good (x :: xs) x) : preferred good (x :: xs) = some x := by
  rcases h.2 with hgood | hnone
  · exact preferred_of_good hgood xs
  · rw [preferred_of_none hnone]
    rfl

/-- A good element is preferred to those before it that are not. -/
theorem preferred_of_not_good {y : α} (hy : ¬ good y) (hx : good x) (xs : List α) : preferred good (y :: x :: xs) = some x := by
  simp [preferred, hy, hx]

theorem Candidate.of_perm (h : Candidate good xs x) (hperm : xs.Perm ys) : Candidate good ys x :=
  ⟨hperm.mem_iff.mp h.1, h.2.imp_right fun hnone y hy => hnone y (hperm.mem_iff.mpr hy)⟩

/-- The loop that keeps one element. -/
theorem preferred_concat (xs : List α) (later : α) :
    preferred good (xs ++ [later]) = some (keep good later (preferred good xs)) := by
  cases xs with
  | nil => by_cases h : good later <;> simp [preferred, keep, h]
  | cons x xs =>
    rw [List.cons_append, preferred_cons, preferred_cons, List.find?_append]
    by_cases hx : good x
    · simp [hx, keep]
    · cases hfound : xs.find? good with
      | some y => simp [hx, keep, List.find?_some hfound]
      | none => by_cases hlater : good later <;> simp [hx, keep, hlater]

theorem find?_flatMap_preferred (f : β → List α) (pieces : List β) :
    (pieces.flatMap f).find? good = (pieces.filterMap fun piece => preferred good (f piece)).find? good := by
  induction pieces with
  | nil => rfl
  | cons piece pieces ih =>
    rw [List.flatMap_cons, List.find?_append, ih, List.filterMap_cons]
    cases hfound : (f piece).find? good with
    | some y => simp [preferred, hfound, List.find?_some hfound]
    | none =>
      cases hhead : (f piece).head? with
      | none => simp [preferred, hfound, hhead]
      | some y =>
        have hy : ¬ good y := List.find?_eq_none.mp hfound y (List.mem_of_head? hhead)
        simp [preferred, hfound, hhead, hy]

/-- Preferring piece by piece. -/
theorem preferred_flatMap (f : β → List α) (pieces : List β) :
    preferred good (pieces.flatMap f) = preferred good (pieces.filterMap fun piece => preferred good (f piece)) := by
  rw [preferred, find?_flatMap_preferred, preferred]
  cases hfound : (pieces.filterMap fun piece => preferred good (f piece)).find? good with
  | some y => rfl
  | none =>
    -- no piece has a good element, so each prefers its first
    have hnone : ∀ piece ∈ pieces, ∀ y ∈ f piece, ¬ good y := by
      rw [← find?_flatMap_preferred, List.find?_eq_none] at hfound
      exact fun piece hpiece y hy => hfound y (List.mem_flatMap.mpr ⟨piece, hpiece, hy⟩)
    clear hfound
    rw [Option.none_or, Option.none_or]
    induction pieces with
    | nil => rfl
    | cons piece pieces ih =>
      rw [List.forall_mem_cons] at hnone
      rw [List.flatMap_cons, List.filterMap_cons, preferred_of_none hnone.1, List.head?_append]
      cases hhead : (f piece).head? with
      | none => simpa using ih hnone.2
      | some y => rfl

end Kmsrs.Preferred
