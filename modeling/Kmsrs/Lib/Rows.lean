import Mathlib.Tactic

/-! Lists row by row. What holds of the entries of a list is decided entry by entry, also
where the type of the entries is finite: a character or a number of sixteen bits is not
looked for among all of them. Lists of one length are related entry by entry. -/

namespace Kmsrs

section
variable {α : Type*} (p : α → Prop) [DecidablePred p] (items : List α)

instance (priority := 1100) decidableForallMem : Decidable (∀ item ∈ items, p item) := List.decidableBAll p items

instance (priority := 1100) decidableExistsMem : Decidable (∃ item ∈ items, p item) := List.decidableBEx p items

end

variable {α β : Type} {R : α → β → Prop} {xs : List α} {ys : List β}

/-- What is read from a list is read from its items, in their order. -/
theorem mapM_eq_some_iff {f : α → Option β} :
    xs.mapM f = some ys ↔ List.Forall₂ (fun x y => f x = some y) xs ys := by
  induction xs generalizing ys with
  | nil => simp [eq_comm]
  | cons x xs ih =>
    rw [List.mapM_cons, List.forall₂_cons_left_iff]
    simp only [Option.bind_eq_bind, Option.bind_eq_some_iff, Option.pure_def, Option.some.injEq, ih]
    constructor
    · rintro ⟨y, hy, ys, hys, rfl⟩
      exact ⟨y, ys, hy, hys, rfl⟩
    · rintro ⟨y, ys, hy, hys, rfl⟩
      exact ⟨y, hy, ys, hys, rfl⟩

theorem exists_mem_of_forall₂ (h : List.Forall₂ R xs ys) {y : β} (hy : y ∈ ys) : ∃ x ∈ xs, R x y := by
  induction h with
  | nil => cases hy
  | @cons x y' xs ys hxy _ ih =>
    rcases List.mem_cons.mp hy with rfl | hlater
    · exact ⟨x, List.mem_cons_self, hxy⟩
    · obtain ⟨x', hx', hxy'⟩ := ih hlater
      exact ⟨x', List.mem_cons_of_mem _ hx', hxy'⟩

theorem exists_mem_of_forall₂_left (h : List.Forall₂ R xs ys) {x : α} (hx : x ∈ xs) : ∃ y ∈ ys, R x y :=
  exists_mem_of_forall₂ h.flip hx

theorem pairwise_of_forall₂ {S : α → α → Prop} {T : β → β → Prop} (h : List.Forall₂ R xs ys)
    (hstep : ∀ a b a' b', R a a' → R b b' → S a b → T a' b') (hpairwise : xs.Pairwise S) : ys.Pairwise T := by
  induction h with
  | nil => exact .nil
  | @cons x y xs ys hxy hrest ih =>
    obtain ⟨hfirst, hlater⟩ := List.pairwise_cons.mp hpairwise
    refine .cons (fun y' hy' => ?_) (ih hlater)
    obtain ⟨x', hx', hxy'⟩ := exists_mem_of_forall₂ hrest hy'
    exact hstep x x' y y' hxy hxy' (hfirst x' hx')

theorem forall₂_mono_comp {γ : Type} {S : β → γ → Prop} {T : α → γ → Prop} (h : ∀ {a b c}, R a b → S b c → T a c) {zs : List γ}
    (hfirst : List.Forall₂ R xs ys) (hsecond : List.Forall₂ S ys zs) : List.Forall₂ T xs zs := by
  induction hfirst generalizing zs with
  | nil =>
    cases hsecond
    exact .nil
  | cons hhead _ ih =>
    cases hsecond with
    | cons hnext hrest => exact .cons (h hhead hnext) (ih hrest)

end Kmsrs
