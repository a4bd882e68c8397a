import Kmsrs.Lib.Rows
import Mathlib.Algebra.BigOperators.Intervals
import Mathlib.Algebra.BigOperators.Group.List.Basic
import Mathlib.Algebra.Order.BigOperators.Group.Finset
import Mathlib.Order.Interval.Finset.Nat

/-! Selection by running sums. A target from `0` up to the total of the weights is
reached by one of the running sums first; the first weight has one target more
than it weighs, every other weight as many as it weighs, so that one that weighs
nothing has none unless it stands first. -/

namespace Kmsrs.Roulette

/-- The place of the weight whose running sum, begun at `running`, is the first to
reach the target. -/
def reach (target : ℕ) : (running : ℕ) → List ℕ → Option ℕ
  | _, [] => none
  | running, w :: ws => if target ≤ running + w then some 0 else (reach target (running + w) ws).map (· + 1)

theorem reach_eq_some_iff {target running i : ℕ} {ws : List ℕ} :
    reach target running ws = some i ↔
      i < ws.length ∧ target ≤ running + (ws.take (i + 1)).sum ∧ (0 < i → running + (ws.take i).sum < target) := by
  induction ws generalizing running i with
  | nil => simp [reach]
  | cons w ws ih =>
    rw [reach]
    split_ifs with hreached
    · cases i with
      | zero => simp [hreached]
      | succ i =>
        have hover : w ≤ ((w :: ws).take (i + 1)).sum := by simp
        refine ⟨nofun, fun ⟨_, _, hbelow⟩ => ?_⟩
        have := hbelow i.succ_pos
        omega
    · cases i with
      | zero => simpa using hreached
      | succ i =>
        have hshift : (reach target (running + w) ws).map (· + 1) = some (i + 1) ↔
            reach target (running + w) ws = some i := by simp
        rw [hshift, ih]
        simp only [List.length_cons, Nat.add_lt_add_iff_right, List.take_succ_cons, List.sum_cons, Nat.add_assoc,
          Nat.zero_lt_succ, forall_const]
        rcases Nat.eq_zero_or_pos i with rfl | hi
        · simp only [List.take_zero, List.sum_nil, Nat.lt_irrefl, false_implies, and_true]
          omega
        · simp only [hi, forall_const]

theorem isSome_reach {target running : ℕ} {ws : List ℕ} (hne : ws ≠ []) (h : target ≤ running + ws.sum) :
    (reach target running ws).isSome := by
  induction ws generalizing running with
  | nil => exact absurd rfl hne
  | cons w ws ih =>
    rw [reach]
    split_ifs with hreached
    · rfl
    · rw [List.sum_cons] at h
      have hrest : ws ≠ [] := by
        rintro rfl
        simp only [List.sum_nil] at h
        omega
      rw [Option.isSome_map]
      exact ih hrest (by omega)

/-- The targets up to the total at which a place is the first to be reached. -/
def targets (ws : List ℕ) (i : ℕ) : Finset ℕ := (Finset.range (ws.sum + 1)).filter fun t => reach t 0 ws = some i

theorem sum_take_le (ws : List ℕ) (i : ℕ) : (ws.take i).sum ≤ ws.sum :=
  (List.take_sublist i ws).sum_le_sum fun _ _ => Nat.zero_le _

theorem card_targets_zero {w : ℕ} {ws : List ℕ} : (targets (w :: ws) 0).card = w + 1 := by
  have heq : targets (w :: ws) 0 = Finset.range (w + 1) := by
    ext t
    simp only [targets, Finset.mem_filter, Finset.mem_range, reach_eq_some_iff, List.sum_cons, List.take_succ_cons,
      List.take_zero, List.sum_nil, List.length_cons]
    omega
  rw [heq, Finset.card_range]

theorem card_targets_succ {i w : ℕ} {ws : List ℕ} (h : ws[i + 1]? = some w) : (targets ws (i + 1)).card = w := by
  obtain ⟨hi, rfl⟩ := List.getElem?_eq_some_iff.mp h
  have hsum : (ws.take (i + 1 + 1)).sum = (ws.take (i + 1)).sum + ws[i + 1] := List.sum_take_succ ws (i + 1) hi
  have hwithin := sum_take_le ws (i + 1 + 1)
  have heq : targets ws (i + 1) = Finset.Ioc (ws.take (i + 1)).sum ((ws.take (i + 1)).sum + ws[i + 1]) := by
    ext t
    simp only [targets, Finset.mem_filter, Finset.mem_range, reach_eq_some_iff, Finset.mem_Ioc]
    omega
  rw [heq, Nat.card_Ioc, Nat.add_sub_cancel_left]

/-- Every value lands in one of the places, so their shares make up the whole. -/
theorem sum_card_fibers {bound places : ℕ} {f : ℕ → ℕ} (h : ∀ v < bound, f v < places) :
    ∑ i ∈ Finset.range places, ((Finset.range bound).filter fun v => f v = i).card = bound := by
  have hmaps : ∀ v ∈ Finset.range bound, f v ∈ Finset.range places :=
    fun v hv => Finset.mem_range.mpr (h v (Finset.mem_range.mp hv))
  rw [← Finset.card_eq_sum_card_fiberwise hmaps, Finset.card_range]

/-- Where every weight has at least its share of the values, and the first one
more, the total of the weights is below their number. -/
theorem sum_lt_of_shares {bound w : ℕ} {ws : List ℕ} {f : ℕ → ℕ}
    (hmaps : ∀ v < bound, f v < (w :: ws).length)
    (hfirst : w + 1 ≤ ((Finset.range bound).filter fun v => f v = 0).card)
    (hrest : ∀ i u, ws[i]? = some u → u ≤ ((Finset.range bound).filter fun v => f v = i + 1).card) :
    (w :: ws).sum < bound := by
  have hshares : ws.sum ≤ ∑ i ∈ Finset.range ws.length,
      ((Finset.range bound).filter fun v => f v = i + 1).card := by
    have hsum : ws.sum = ∑ i ∈ Finset.range ws.length, (ws[i]?).getD 0 := by
      clear hmaps hfirst hrest
      induction ws with
      | nil => rfl
      | cons u us ih =>
        rw [List.length_cons, Finset.sum_range_succ', List.sum_cons, ih, Nat.add_comm]
        simp
    rw [hsum]
    refine Finset.sum_le_sum fun i hi => ?_
    obtain ⟨u, hu⟩ : ∃ u, ws[i]? = some u := ⟨_, List.getElem?_eq_getElem (Finset.mem_range.mp hi)⟩
    rw [hu]
    exact hrest i u hu
  have hwhole := sum_card_fibers hmaps
  rw [List.length_cons, Finset.sum_range_succ'] at hwhole
  rw [List.sum_cons]
  omega

end Kmsrs.Roulette
