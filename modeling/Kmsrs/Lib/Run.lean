import Kmsrs.Lib.Rows

/-! Runs of a deterministic labelled system. A run keeps its whole past, so a
property of the state reached can refer to the transition that caused it; the
rules below carry an invariant along a run, find the state in which an earlier
transition fired, and keep a consequence of that transition up to the present. -/

namespace Kmsrs

variable {S L : Type*}

/-- The transitions taken from `s₀`, oldest first and each with the state it
fired in, and the state after them. -/
inductive Runs (next : S → L → S) (s₀ : S) : List (S × L) → S → Prop
  | nil : Runs next s₀ [] s₀
  | snoc {past : List (S × L)} {s : S} (l : L) :
      Runs next s₀ past s → Runs next s₀ (past ++ [(s, l)]) (next s l)

/-- The transitions taken on a list of labels. -/
def path (next : S → L → S) (s : S) : List L → List (S × L)
  | [] => []
  | l :: labels => (s, l) :: path next (next s l) labels

theorem path_append (next : S → L → S) (s : S) (labels later : List L) :
    path next s (labels ++ later) = path next s labels ++ path next (labels.foldl next s) later := by
  induction labels generalizing s with
  | nil => rfl
  | cons l labels ih => rw [List.cons_append, path, ih, path, List.cons_append, List.foldl_cons]

/-- A property that each transition carries on exactly when its condition is met
holds in every state of a run exactly when every condition is met. -/
theorem forall_scanl_iff {next : S → L → S} {I P : S → Prop} {C : S → L → Prop}
    (hkeep : ∀ s l, I s → I (next s l)) (hstep : ∀ s l, I s → P s → (P (next s l) ↔ C s l)) {s : S}
    (hI : I s) (hP : P s) (labels : List L) :
    (∀ t ∈ labels.scanl next s, P t) ↔ ∀ transition ∈ path next s labels, C transition.1 transition.2 := by
  induction labels generalizing s with
  | nil => simpa [path] using hP
  | cons l labels ih =>
    rw [List.scanl_cons, List.forall_mem_cons, path, List.forall_mem_cons, ← hstep s l hI hP]
    constructor
    · rintro ⟨-, hlater⟩
      have hnext : P (next s l) := hlater _ (by cases labels <;> simp)
      exact ⟨hnext, (ih (hkeep s l hI) hnext).mp hlater⟩
    · rintro ⟨hnext, hlater⟩
      exact ⟨hP, (ih (hkeep s l hI) hnext).mpr hlater⟩

/-- What holds at the start and is carried on by transitions that meet their
condition holds in every state of a run of such transitions. -/
theorem forall_scanl_of_path {next : S → L → S} {I : S → Prop} {C : S → L → Prop}
    (hstep : ∀ s l, I s → C s l → I (next s l)) {s : S} (hI : I s) (labels : List L)
    (h : ∀ transition ∈ path next s labels, C transition.1 transition.2) : ∀ t ∈ labels.scanl next s, I t := by
  induction labels generalizing s with
  | nil => simpa using hI
  | cons l labels ih =>
    rw [path, List.forall_mem_cons] at h
    rw [List.scanl_cons, List.forall_mem_cons]
    exact ⟨hI, ih (hstep s l hI h.1) h.2⟩

/-- Every transition of a run leads to a state of it. -/
theorem next_mem_scanl {next : S → L → S} {s : S} {labels : List L} {transition : S × L}
    (h : transition ∈ path next s labels) : next transition.1 transition.2 ∈ labels.scanl next s := by
  induction labels generalizing s with
  | nil => simp [path] at h
  | cons l labels ih =>
    rw [List.scanl_cons, List.mem_cons]
    rcases List.mem_cons.mp h with rfl | hlater
    · exact .inr (by cases labels <;> simp)
    · exact .inr (ih hlater)

namespace Runs

variable {next : S → L → S} {s₀ s : S} {past : List (S × L)}

/-- What holds at the start and survives every transition holds at the end. -/
theorem invariant (I : S → Prop) (hinit : I s₀) (hstep : ∀ s l, I s → I (next s l))
    (h : Runs next s₀ past s) : I s := by
  induction h with
  | nil => exact hinit
  | snoc l _ ih => exact hstep _ l ih

/-- The same for a property that also refers to the past. -/
theorem history (I : List (S × L) → S → Prop) (hinit : I [] s₀)
    (hstep : ∀ past s l, Runs next s₀ past s → I past s → I (past ++ [(s, l)]) (next s l))
    (h : Runs next s₀ past s) : I past s := by
  induction h with
  | nil => exact hinit
  | snoc l hr ih => exact hstep _ _ l hr ih

/-- Every transition of a run fired in a state that the run before it reached. -/
theorem reached {before after : List (S × L)} {t : S} {l : L} (h : Runs next s₀ past s)
    (he : past = before ++ (t, l) :: after) : Runs next s₀ before t := by
  induction h generalizing after with
  | nil => simp at he
  | snoc l' hr ih =>
    rcases List.eq_nil_or_concat after with rfl | ⟨after', x, rfl⟩
    · obtain ⟨rfl, hx⟩ := List.append_inj' he rfl
      simp only [List.cons.injEq, Prod.mk.injEq, and_true] at hx
      exact hx.1 ▸ hr
    · rw [List.concat_eq_append, ← List.cons_append, ← List.append_assoc] at he
      exact ih (List.append_inj' he rfl).1

/-- The state after a run whose last transition is known. -/
theorem last {t : S} {l : L} (h : Runs next s₀ past s) {before : List (S × L)} (he : past = before ++ [(t, l)]) :
    Runs next s₀ before t ∧ s = next t l := by
  refine ⟨h.reached he, ?_⟩
  cases h with
  | nil => simp at he
  | snoc l' _ =>
    obtain ⟨-, hx⟩ := List.append_inj' he rfl
    simp only [List.cons.injEq, Prod.mk.injEq, and_true] at hx
    rw [hx.1, hx.2]

/-- What one transition establishes and every later one keeps holds at the end. -/
theorem since (Q : S → Prop) {before after : List (S × L)} {t : S} {l : L}
    (h : Runs next s₀ past s) (he : past = before ++ (t, l) :: after) (hest : Q (next t l))
    (hkeep : ∀ x ∈ after, Q x.1 → Q (next x.1 x.2)) : Q s := by
  induction h generalizing after with
  | nil => simp at he
  | @snoc past s' l' hr ih =>
    rcases List.eq_nil_or_concat after with rfl | ⟨after', x, rfl⟩
    · obtain ⟨-, hx⟩ := List.append_inj' he rfl
      simp only [List.cons.injEq, Prod.mk.injEq, and_true] at hx
      obtain ⟨rfl, rfl⟩ := hx
      exact hest
    · rw [List.concat_eq_append, ← List.cons_append, ← List.append_assoc] at he
      obtain ⟨hpast, hx⟩ := List.append_inj' he rfl
      simp only [List.cons.injEq, and_true] at hx
      subst hx
      have hq := ih hpast fun y hy => hkeep y (by simp [hy])
      exact hkeep (s', l') (by simp) hq

theorem append_path (h : Runs next s₀ past s) (labels : List L) :
    Runs next s₀ (past ++ path next s labels) (labels.foldl next s) := by
  induction labels generalizing past s with
  | nil => simpa [path] using h
  | cons l labels ih =>
    have hrest := ih (h.snoc l)
    rwa [List.append_assoc] at hrest

/-- A list of labels is a run. -/
theorem of_path (labels : List L) : Runs next s₀ (path next s₀ labels) (labels.foldl next s₀) := by
  simpa using (Runs.nil : Runs next s₀ [] s₀).append_path labels

/-- An invariant holds wherever a transition of the path fires. -/
theorem invariant_path (I : S → Prop) (hinit : I s₀) (hstep : ∀ s l, I s → I (next s l)) (labels : List L) :
    ∀ transition ∈ path next s₀ labels, I transition.1 := by
  induction labels generalizing s₀ with
  | nil => simp [path]
  | cons l labels ih =>
    intro transition hmem
    rcases List.mem_cons.mp hmem with rfl | hlater
    · exact hinit
    · exact ih (hstep s₀ l hinit) transition hlater

end Runs

end Kmsrs
