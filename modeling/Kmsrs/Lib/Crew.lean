import Kmsrs.Lib.Rows
import Mathlib.Algebra.BigOperators.Group.List.Basic

/-! Workers that share a state, one step of one worker at a time. A worker's program says
what it does to the shared state from its place, where it goes, and whom it hires. Every
order of steps is a run. What the workers hold is counted over all of them: it changes by
what the one that steps, and those it hires, take or give. -/

namespace Kmsrs

/-- A shared state, and the place of each worker in its program. -/
structure Crew (σ π : Type*) where
  shared : σ
  places : List π

namespace Crew

variable {σ π τ M : Type*}

/-- What all workers hold together. -/
def held [AddCommMonoid M] (weight : π → M) (crew : Crew σ π) : M := (crew.places.map weight).sum

/-- One worker moves on, and hires others. -/
def move (crew : Crew σ π) (worker : ℕ) (shared : σ) (place : π) (hired : List π) : Crew σ π :=
  ⟨shared, crew.places.set worker place ++ hired⟩

section
variable {crew : Crew σ π} {worker : ℕ} {shared : σ} {place before : π} {hired : List π}

@[simp] theorem shared_move : (crew.move worker shared place hired).shared = shared := rfl

theorem sum_set [AddCommMonoid M] {weight : π → M} {places : List π} (h : places[worker]? = some before) :
    ((places.set worker place).map weight).sum + weight before = (places.map weight).sum + weight place := by
  induction places generalizing worker with
  | nil => cases h
  | cons first places ih =>
    cases worker with
    | zero =>
      obtain rfl : first = before := by simpa using h
      rw [List.set_cons_zero, List.map_cons, List.sum_cons, List.map_cons, List.sum_cons, add_comm (weight place),
        add_comm (weight first), add_assoc, add_assoc, add_comm (weight place)]
    | succ worker =>
      rw [List.getElem?_cons_succ] at h
      rw [List.set_cons_succ, List.map_cons, List.sum_cons, List.map_cons, List.sum_cons, add_assoc, ih h, add_assoc]

/-- What the worker that moves held before is made up for by what it and those it hires hold
now. -/
theorem held_move [AddCommMonoid M] (weight : π → M) (h : crew.places[worker]? = some before) :
    held weight (crew.move worker shared place hired) + weight before =
      held weight crew + weight place + (hired.map weight).sum := by
  rw [held, held, move, List.map_append, List.sum_append, add_right_comm, sum_set h]

/-- A worker that hires nobody. -/
theorem held_move_nil [AddCommMonoid M] (weight : π → M) (h : crew.places[worker]? = some before) (shared : σ) (place : π) :
    held weight (crew.move worker shared place []) + weight before = held weight crew + weight place := by
  rw [held_move weight h, List.map_nil, List.sum_nil, add_zero]

theorem length_move_nil : (crew.move worker shared place []).places.length = crew.places.length := by
  rw [move, List.append_nil, List.length_set]

theorem held_eq_zero [AddCommMonoid M] {weight : π → M} (h : ∀ place ∈ crew.places, weight place = 0) : held weight crew = 0 := by
  rw [held, List.map_congr_left h]
  simp

theorem le_held {weight : π → ℕ} (h : crew.places[worker]? = some place) : weight place ≤ held weight crew :=
  List.single_le_sum (fun _ _ => Nat.zero_le _) _ (List.mem_map_of_mem (List.mem_of_getElem? h))

/-- What weighs no more worker by worker weighs no more together. -/
theorem held_mono {weight heavier : π → ℕ} (h : ∀ place, weight place ≤ heavier place) : held weight crew ≤ held heavier crew :=
  List.sum_le_sum fun place _ => h place

theorem held_add {weight other : π → ℕ} : held (fun place => weight place + other place) crew = held weight crew + held other crew := by
  unfold held
  induction crew.places with
  | nil => rfl
  | cons place places ih =>
    rw [List.map_cons, List.sum_cons, ih, List.map_cons, List.sum_cons, List.map_cons, List.sum_cons, add_add_add_comm]

/-- Where no worker holds more than so much, they hold no more than that for each. -/
theorem held_le_mul {weight : π → ℕ} {most : ℕ} (h : ∀ place, weight place ≤ most) :
    held weight crew ≤ crew.places.length * most := by
  rw [held, ← List.length_map weight, ← smul_eq_mul]
  refine List.sum_le_card_nsmul _ most fun count hcount => ?_
  obtain ⟨place, -, rfl⟩ := List.mem_map.mp hcount
  exact h place

/-- Where no worker holds more than one, they hold no more than there are workers. -/
theorem held_le_length {weight : π → ℕ} (h : ∀ place, weight place ≤ 1) : held weight crew ≤ crew.places.length :=
  (held_le_mul h).trans_eq (mul_one _)

theorem mem_move (hmem : before ∈ (crew.move worker shared place hired).places) :
    before ∈ crew.places ∨ before = place ∨ before ∈ hired := by
  rcases List.mem_append.mp hmem with hset | hhired
  · rcases List.mem_or_eq_of_mem_set hset with hold | hnew
    · exact .inl hold
    · exact .inr (.inl hnew)
  · exact .inr (.inr hhired)

end

/-- A program in which nobody hires. -/
def alone (program : σ → π → τ → Option (σ × π)) (shared : σ) (place : π) (event : τ) : Option (σ × π × List π) :=
  (program shared place event).map fun next => (next.1, next.2, [])

theorem alone_eq_some {program : σ → π → τ → Option (σ × π)} {shared shared' : σ} {place place' : π} {event : τ} {hired : List π}
    (h : alone program shared place event = some (shared', place', hired)) :
    program shared place event = some (shared', place') ∧ hired = [] := by
  obtain ⟨next, hnext, heq⟩ := Option.map_eq_some_iff.mp h
  cases heq
  exact ⟨hnext, rfl⟩

/-- The steps of a run, each with the state and the place it was taken in, and where they lead. -/
inductive Reaches (program : σ → π → τ → Option (σ × π × List π)) (start : Crew σ π) :
    List (σ × π × τ) → Crew σ π → Prop
  | nil : Reaches program start [] start
  | snoc {past : List (σ × π × τ)} {crew : Crew σ π} {place place' : π} {shared : σ} {hired : List π} (worker : ℕ) (event : τ) :
      Reaches program start past crew → crew.places[worker]? = some place →
      program crew.shared place event = some (shared, place', hired) →
        Reaches program start (past ++ [(crew.shared, place, event)]) (crew.move worker shared place' hired)

/-- The run in which these workers step, where all of them can. -/
def follow (program : σ → π → τ → Option (σ × π × List π)) (crew : Crew σ π) : List (ℕ × τ) → Option (Crew σ π)
  | [] => some crew
  | (worker, event) :: turns =>
    (crew.places[worker]?).bind fun place => (program crew.shared place event).bind fun next =>
      (crew.move worker next.1 next.2.1 next.2.2).follow program turns

/-- Nobody has a step left, whatever happens. -/
def Stuck (program : σ → π → τ → Option (σ × π × List π)) (crew : Crew σ π) : Prop :=
  ∀ place ∈ crew.places, ∀ event, program crew.shared place event = none

section
variable {program : σ → π → τ → Option (σ × π × List π)} {start crew : Crew σ π} {past : List (σ × π × τ)}

/-- What holds at the start and is kept by each step of one worker holds of every run. -/
theorem Reaches.invariant (I : List (σ × π × τ) → Crew σ π → Prop) (hstart : I [] start)
    (hstep : ∀ past crew worker place event shared place' hired, I past crew → crew.places[worker]? = some place →
      program crew.shared place event = some (shared, place', hired) →
        I (past ++ [(crew.shared, place, event)]) (crew.move worker shared place' hired))
    (h : Reaches program start past crew) : I past crew := by
  induction h with
  | nil => exact hstart
  | snoc worker event _ hplace hprogram ih => exact hstep _ _ worker _ event _ _ _ ih hplace hprogram

/-- Where every step costs something of what is left, no run has more steps than there is
at the start. -/
theorem Reaches.length_le (P : σ → Prop) {left : σ → ℕ} {own : π → ℕ}
    (hkeep : ∀ shared place event shared' place' hired, P shared →
      program shared place event = some (shared', place', hired) → P shared')
    (hcost : ∀ shared place event shared' place' hired, P shared → program shared place event = some (shared', place', hired) →
      left shared' + own place' + (hired.map own).sum + 1 ≤ left shared + own place)
    (hstart : P start.shared) (h : Reaches program start past crew) :
    past.length + left crew.shared + held own crew ≤ left start.shared + held own start := by
  suffices hall : P crew.shared ∧ past.length + left crew.shared + held own crew ≤ left start.shared + held own start from hall.2
  refine h.invariant (fun past crew => P crew.shared ∧ past.length + left crew.shared + held own crew ≤
    left start.shared + held own start) ⟨hstart, by simp⟩ ?_
  intro past crew worker place event shared place' hired ⟨hholds, hle⟩ hplace hprogram
  have hheld := @held_move σ π ℕ crew worker shared place' place hired _ own hplace
  have hstep := hcost _ _ _ _ _ _ hholds hprogram
  refine ⟨hkeep _ _ _ _ _ _ hholds hprogram, ?_⟩
  rw [List.length_append, List.length_singleton, shared_move]
  omega

theorem Reaches.trans {after : List (σ × π × τ)} {crew' : Crew σ π} (h : Reaches program start past crew)
    (hafter : Reaches program crew after crew') : ∃ whole, Reaches program start whole crew' := by
  induction hafter with
  | nil => exact ⟨past, h⟩
  | snoc worker event _ hplace hprogram ih =>
    obtain ⟨whole, hwhole⟩ := ih
    exact ⟨_, hwhole.snoc worker event hplace hprogram⟩

theorem Reaches.follow {turns : List (ℕ × τ)} {crew' : Crew σ π} (h : Reaches program start past crew)
    (hfollow : crew.follow program turns = some crew') : ∃ past, Reaches program start past crew' := by
  induction turns generalizing past crew with
  | nil =>
    cases hfollow
    exact ⟨past, h⟩
  | cons turn turns ih =>
    obtain ⟨place, hplace, hnext⟩ := Option.bind_eq_some_iff.mp hfollow
    obtain ⟨next, hprogram, hrest⟩ := Option.bind_eq_some_iff.mp hnext
    exact ih (h.snoc turn.1 turn.2 hplace hprogram) hrest

end

end Crew

end Kmsrs
