import Kmsrs.Client.Discover

/-! What the weights of a zone decide. Under a uniform draw a record is placed
first among those of its priority in proportion to its weight, and the first to
have arrived has one draw value more; a record of no weight therefore has a
chance only where it arrived first, and whether it does is left to the order of
the answer. -/

namespace Kmsrs.Discover

/-- How many of the values that may be drawn place the record at `i` first. -/
def chances (group : List Candidate) (i : ℕ) : ℕ :=
  ((Finset.range (bound group)).filter fun value => chosen group value = i).card

/-- Every record may be placed first, one with a weight in proportion to it up to one extra value. -/
def Fair (group : List Candidate) : Prop :=
  ∀ i candidate, group[i]? = some candidate → 0 < chances group i ∧
    (0 < candidate.weight.toNat →
      candidate.weight.toNat ≤ chances group i ∧ chances group i ≤ candidate.weight.toNat + 1)

/-- Every record but the first has a weight, and the total is below the largest value of 32 bits. -/
def Weighted (group : List Candidate) : Prop :=
  (∀ candidate ∈ group.tail, 0 < candidate.weight.toNat) ∧ (weights group).sum < 2 ^ 32 - 1

theorem firstReaching_eq_reach {target running : ℕ} (index : ℕ) {group : List Candidate}
    (h : running + (weights group).sum < 2 ^ 32) :
    firstReaching target running index group =
      (Roulette.reach target running (weights group)).map (· + index) := by
  induction group generalizing running index with
  | nil => rfl
  | cons candidate rest ih =>
    simp only [weights, List.map_cons, List.sum_cons] at h ih ⊢
    have hadd : saturatingAdd running candidate.weight.toNat = running + candidate.weight.toNat := by
      rw [saturatingAdd]
      omega
    rw [firstReaching, hadd, Roulette.reach]
    split_ifs with hreached
    · rw [Option.map_some, Nat.zero_add]
    · rw [ih (index + 1) (by omega), Option.map_map]
      congr 1
      funext i
      simp only [Function.comp_apply]
      omega

theorem bound_eq {group : List Candidate} (h : (weights group).sum < 2 ^ 32 - 1) :
    bound group = (weights group).sum + 1 := by
  rw [bound, saturatingAdd, total, Nat.mod_eq_of_lt (by omega)]
  omega

theorem chances_eq_card {group : List Candidate} (hne : group ≠ []) (h : (weights group).sum < 2 ^ 32 - 1) (i : ℕ) :
    chances group i = (Roulette.targets (weights group) i).card := by
  rw [chances, Roulette.targets, bound_eq h]
  congr 1
  refine Finset.filter_congr fun value hvalue => ?_
  have hsome : (Roulette.reach value 0 (weights group)).isSome :=
    Roulette.isSome_reach (by simpa [weights] using hne) (by have := Finset.mem_range.mp hvalue; omega)
  obtain ⟨place, hplace⟩ := Option.isSome_iff_exists.mp hsome
  rw [chosen, firstReaching_eq_reach 0 (by omega), hplace]
  simp

theorem chances_first {candidate : Candidate} {rest : List Candidate}
    (h : (weights (candidate :: rest)).sum < 2 ^ 32 - 1) :
    chances (candidate :: rest) 0 = candidate.weight.toNat + 1 := by
  rw [chances_eq_card (List.cons_ne_nil _ _) h]
  exact Roulette.card_targets_zero

theorem chances_later {group : List Candidate} {candidate : Candidate} {i : ℕ}
    (h : (weights group).sum < 2 ^ 32 - 1) (hi : group[i + 1]? = some candidate) :
    chances group (i + 1) = candidate.weight.toNat := by
  have hne : group ≠ [] := by
    rintro rfl
    cases hi
  rw [chances_eq_card hne h]
  refine Roulette.card_targets_succ ?_
  rw [weights, List.getElem?_map, hi, Option.map_some]

/-- A value up to the first weight lands on the first record, whatever the others weigh. -/
theorem chosen_eq_zero {candidate : Candidate} {rest : List Candidate} {value : ℕ}
    (h : value ≤ candidate.weight.toNat) : chosen (candidate :: rest) value = 0 := by
  have hweight := candidate.weight.toNat_lt
  have hreached : value ≤ saturatingAdd 0 candidate.weight.toNat := by
    rw [saturatingAdd]
    omega
  rw [chosen, firstReaching, if_pos hreached, Option.getD_some]

/-- The weight of one record is below the largest value of 32 bits. -/
theorem sum_weights_singleton_lt (only : Candidate) : (weights [only]).sum < 2 ^ 32 - 1 := by
  have hweight := only.weight.toNat_lt
  simp only [weights, List.map_cons, List.map_nil, List.sum_cons, List.sum_nil]
  omega

theorem sum_lt_of_fair {group : List Candidate} (h : Fair group) : (weights group).sum < 2 ^ 32 - 1 := by
  have hbound : bound group ≤ 2 ^ 32 - 1 := min_le_right _ _
  match group, h with
  | [], _ => decide
  | [only], _ => exact sum_weights_singleton_lt only
  | first :: second :: rest, h =>
    refine Nat.lt_of_lt_of_le ?_ hbound
    -- The second record has a value of its own, so the first has all of its values.
    obtain ⟨value, hvalue⟩ := Finset.card_pos.mp (h 1 second rfl).1
    obtain ⟨hbelow, hsecond⟩ := Finset.mem_filter.mp hvalue
    have hover : first.weight.toNat < value := by
      by_contra hle
      rw [chosen_eq_zero (Nat.le_of_not_lt hle)] at hsecond
      cases hsecond
    refine Roulette.sum_lt_of_shares (f := chosen (first :: second :: rest)) (fun v _ => ?_) ?_ fun i u hu => ?_
    · rw [List.length_cons, List.length_map]
      exact chosen_lt (List.cons_ne_nil _ _) v
    · rw [← Finset.card_range (first.weight.toNat + 1)]
      refine Finset.card_le_card fun v hv => Finset.mem_filter.mpr ⟨?_, ?_⟩
      · have := Finset.mem_range.mp hv
        exact Finset.mem_range.mpr (by have := Finset.mem_range.mp hbelow; omega)
      · exact chosen_eq_zero (Nat.le_of_lt_succ (Finset.mem_range.mp hv))
    · rw [List.getElem?_map] at hu
      obtain ⟨candidate, hcandidate, rfl⟩ := Option.map_eq_some_iff.mp hu
      rcases Nat.eq_zero_or_pos candidate.weight.toNat with hzero | hpos
      · rw [hzero]
        exact Nat.zero_le _
      · exact ((h (i + 1) candidate hcandidate).2 hpos).1

theorem fair_iff_weighted (group : List Candidate) : Fair group ↔ Weighted group := by
  constructor
  · intro h
    have hsum := sum_lt_of_fair h
    refine ⟨fun candidate hmem => ?_, hsum⟩
    obtain ⟨i, hi⟩ := List.mem_iff_getElem?.mp hmem
    rw [List.getElem?_tail] at hi
    rw [← chances_later hsum hi]
    exact (h (i + 1) candidate hi).1
  · rintro ⟨htail, hsum⟩ i candidate hi
    cases i with
    | zero =>
      obtain ⟨rest, rfl⟩ : ∃ rest, group = candidate :: rest := by
        cases group with
        | nil => cases hi
        | cons first rest =>
          cases hi
          exact ⟨rest, rfl⟩
      rw [chances_first hsum]
      omega
    | succ i =>
      rw [chances_later hsum hi]
      have hpos := htail candidate (List.mem_of_getElem? (List.getElem?_tail.trans hi))
      omega

theorem byPriority_trans (a b c : Candidate) : decide (a.priority ≤ b.priority) → decide (b.priority ≤ c.priority) →
    decide (a.priority ≤ c.priority) := by
  simpa using UInt16.le_trans

theorem byPriority_total (a b : Candidate) : decide (a.priority ≤ b.priority) || decide (b.priority ≤ a.priority) := by
  simpa using UInt16.le_total _ _

/-- The records of a priority, sorted or not, stand in the order of their arrival. -/
theorem groupOf_mergeSort (candidates : List Candidate) (priority : UInt16) :
    groupOf (candidates.mergeSort fun a b => a.priority ≤ b.priority) priority = groupOf candidates priority := by
  have hequal : (groupOf candidates priority).Pairwise fun a b => decide (a.priority ≤ b.priority) := by
    refine List.pairwise_of_forall_mem_list fun a ha b hb => ?_
    rw [of_decide_eq_true (List.mem_filter.mp ha).2, of_decide_eq_true (List.mem_filter.mp hb).2]
    exact decide_eq_true (UInt16.le_refl _)
  have hkept := (List.sublist_mergeSort byPriority_trans byPriority_total hequal List.filter_sublist).filter (·.priority = priority)
  have hself : (groupOf candidates priority).filter (·.priority = priority) = groupOf candidates priority := by
    rw [groupOf, List.filter_filter]
    simp
  rw [hself] at hkept
  refine (hkept.eq_of_length ?_).symm
  exact (((List.mergeSort_perm _ _).filter _).length_eq).symm

/-- What a run of the ordering yields, whatever is drawn: all the candidates, by
ascending priority, for one call each, the first of a priority being the record
that the draw made for its whole group lands on. -/
structure Ordered {σ : Type} (draw : σ → ℕ → ℕ × σ) (candidates : List Candidate) (s : σ) : Prop where
  perm : (order draw candidates s).1.Perm candidates
  ascending : Ascending (order draw candidates s).1
  calls : ∃ bounds, bounds.length = candidates.length ∧ (order draw candidates s).2 = afterCalls draw bounds s
  leading : ∀ priority, groupOf candidates priority ≠ [] →
    ∃ before : List ℕ, before.length = candidates.countP (·.priority < priority) ∧
      (groupOf (order draw candidates s).1 priority).head? =
        (groupOf candidates priority)[chosen (groupOf candidates priority)
          (draw (afterCalls draw before s) (bound (groupOf candidates priority))).1]?

theorem ordered {σ : Type} (draw : σ → ℕ → ℕ × σ) (candidates : List Candidate) (s : σ) :
    Ordered draw candidates s := by
  have hperm := List.mergeSort_perm candidates fun a b => decide (a.priority ≤ b.priority)
  have hsorted : Ascending (candidates.mergeSort fun a b => a.priority ≤ b.priority) :=
    (List.pairwise_mergeSort byPriority_trans byPriority_total candidates).imp of_decide_eq_true
  refine ⟨(orderGroups_perm draw _ s).trans hperm, orderGroups_ascending draw s hsorted, ?_, fun priority hne => ?_⟩
  · rw [← hperm.length_eq]
    exact orderGroups_calls draw _ s
  · rw [← groupOf_mergeSort] at hne
    have hlead := head_groupOf_orderGroups draw s hsorted hne
    rwa [groupOf_mergeSort, hperm.countP_eq] at hlead

/-- What the specification of service records asks of their order. -/
structure FollowsSpecification (candidates : List Candidate) : Prop where
  runs : ∀ {σ : Type} (draw : σ → ℕ → ℕ × σ) (s : σ), Ordered draw candidates s
  fair : ∀ arrived : List Candidate, arrived.Perm candidates → ∀ priority, Fair (groupOf arrived priority)

/-- Where there is a choice, every record has a weight, and the total is below the largest value
of 32 bits. -/
def WeightedThroughout (group : List Candidate) : Prop :=
  2 ≤ group.length → (∀ candidate ∈ group, 0 < candidate.weight.toNat) ∧ (weights group).sum < 2 ^ 32 - 1

theorem WeightedThroughout.weighted {group : List Candidate} (h : WeightedThroughout group) : Weighted group := by
  match group, h with
  | [], _ => exact ⟨fun _ hmem => absurd hmem List.not_mem_nil, by decide⟩
  | [only], _ => exact ⟨fun _ hmem => absurd hmem List.not_mem_nil, sum_weights_singleton_lt only⟩
  | first :: second :: rest, h =>
    obtain ⟨hall, hsum⟩ := h (by simp)
    exact ⟨fun candidate hmem => hall candidate (List.mem_of_mem_tail hmem), hsum⟩

theorem WeightedThroughout.of_perm {group group' : List Candidate} (h : WeightedThroughout group) (hperm : group'.Perm group) :
    WeightedThroughout group' := by
  intro hchoice
  rw [hperm.length_eq] at hchoice
  obtain ⟨hall, hsum⟩ := h hchoice
  refine ⟨fun candidate hmem => hall candidate (hperm.mem_iff.mp hmem), ?_⟩
  rwa [weights, (hperm.map _).sum_eq]

/-- A record that could also have arrived last has a weight. -/
theorem weightedThroughout_of_arrivals {candidates : List Candidate} {priority : UInt16}
    (h : ∀ arrived : List Candidate, arrived.Perm candidates → Weighted (groupOf arrived priority)) :
    WeightedThroughout (groupOf candidates priority) := by
  intro hchoice
  refine ⟨fun candidate hmem => ?_, (h candidates (.refl _)).2⟩
  obtain ⟨hcandidate, hpriority⟩ := List.mem_filter.mp hmem
  have hlast : (candidates.erase candidate ++ [candidate]).Perm candidates :=
    (List.perm_append_singleton _ _).trans (List.perm_cons_erase hcandidate).symm
  have hgroup : groupOf (candidates.erase candidate ++ [candidate]) priority =
      groupOf (candidates.erase candidate) priority ++ [candidate] := by
    rw [groupOf, List.filter_append, List.filter_singleton, hpriority]
    rfl
  have hlength := (hlast.filter (·.priority = priority)).length_eq
  change (groupOf (candidates.erase candidate ++ [candidate]) priority).length = (groupOf candidates priority).length at hlength
  rw [hgroup, List.length_append, List.length_singleton] at hlength
  refine (h _ hlast).1 candidate ?_
  rw [hgroup, List.tail_append_of_ne_nil (List.ne_nil_of_length_pos (by omega))]
  exact List.mem_append_right _ (List.mem_singleton_self _)

/-- The order is the specified one, whichever record arrives first, just when in every priority of
two records or more all have a weight and the total stays below the largest value of 32 bits. -/
theorem follows_specification_iff (candidates : List Candidate) :
    FollowsSpecification candidates ↔ ∀ priority, WeightedThroughout (groupOf candidates priority) := by
  constructor
  · intro h priority
    exact weightedThroughout_of_arrivals fun arrived harrived => (fair_iff_weighted _).mp (h.fair arrived harrived priority)
  · intro h
    refine ⟨fun draw s => ordered draw candidates s, fun arrived harrived priority => (fair_iff_weighted _).mpr ?_⟩
    exact ((h priority).of_perm (harrived.filter _)).weighted

/-- The record of no weight that arrives after one of weight 10. -/
theorem zero_weight_never_first :
    let ten : Candidate := ⟨0, 10, 1688, "ten"⟩
    let zero : Candidate := ⟨0, 0, 1688, "zero"⟩
    chances [zero, ten] 0 = 1 ∧ chances [ten, zero] 1 = 0 ∧ ¬ FollowsSpecification [ten, zero] :=
  ⟨by decide, by decide, fun h =>
    absurd (h.fair [⟨0, 10, 1688, "ten"⟩, ⟨0, 0, 1688, "zero"⟩] (.refl _) 0 1 ⟨0, 0, 1688, "zero"⟩ (by decide)).1 (by decide)⟩

end Kmsrs.Discover
