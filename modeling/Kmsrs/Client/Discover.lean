import Kmsrs.Lib.Roulette
import Mathlib.Data.List.Sort

/-! The order in which the published hosts are tried. Records go by ascending
priority; within one priority they are selected one at a time, by a number drawn
from `0` up to the total of the weights and the first running sum to reach it.
Sums are of 32 bits, as the release build computes them: the total wraps, the
bound of the draw and the running sum saturate. -/

namespace Kmsrs.Discover

/-- A service record, before its target has been resolved. -/
structure Candidate where
  priority : UInt16
  weight : UInt16
  port : UInt16
  target : String
  deriving DecidableEq

def saturatingAdd (a b : ℕ) : ℕ := min (a + b) (2 ^ 32 - 1)

def weights (group : List Candidate) : List ℕ := group.map (·.weight.toNat)

def total (group : List Candidate) : ℕ := (weights group).sum % 2 ^ 32

/-- The exclusive bound handed to the draw, so that the total itself may be drawn. -/
def bound (group : List Candidate) : ℕ := saturatingAdd (total group) 1

/-- The loop over a group from the record at `index` on, with the sum of the
weights before it. -/
def firstReaching (target : ℕ) : (running index : ℕ) → List Candidate → Option ℕ
  | _, _, [] => none
  | running, index, candidate :: rest =>
    let running := saturatingAdd running candidate.weight.toNat
    if target ≤ running then some index else firstReaching target running (index + 1) rest

/-- The place of the record that is taken: the last one where no sum reaches the target. -/
def chosen (group : List Candidate) (target : ℕ) : ℕ := (firstReaching target 0 0 group).getD (group.length - 1)

theorem firstReaching_lt {target running index i : ℕ} {group : List Candidate}
    (h : firstReaching target running index group = some i) : i < index + group.length := by
  induction group generalizing running index with
  | nil => cases h
  | cons candidate rest ih =>
    rw [firstReaching] at h
    rw [List.length_cons]
    split_ifs at h
    · cases h
      omega
    · have := ih h
      omega

theorem chosen_lt {group : List Candidate} (h : group ≠ []) (target : ℕ) : chosen group target < group.length := by
  have hpos := List.length_pos_iff.mpr h
  rw [chosen]
  cases hreached : firstReaching target 0 0 group with
  | none => exact Nat.sub_lt hpos Nat.one_pos
  | some i => simpa using firstReaching_lt hreached

variable {σ : Type} (draw : σ → ℕ → ℕ × σ)

/-- Takes the records of a group out one by one. -/
def selectAll (group : List Candidate) (s : σ) : List Candidate × σ :=
  if h : group = [] then ([], s)
  else
    let drawn := draw s (bound group)
    let index := chosen group drawn.1
    have hlt : index < group.length := chosen_lt h drawn.1
    let selected := selectAll (group.eraseIdx index) drawn.2
    (group[index] :: selected.1, selected.2)
termination_by group.length
decreasing_by
  rw [List.length_eraseIdx_of_lt hlt]
  omega

/-- How many of the leading records have the priority of the first. -/
def boundary (rest : List Candidate) : ℕ :=
  let priority := (rest.head?.map (·.priority)).getD 0
  rest.findIdx (·.priority != priority)

theorem boundary_cons (first : Candidate) (others : List Candidate) :
    boundary (first :: others) = others.findIdx (·.priority != first.priority) + 1 := by
  simp [boundary, List.findIdx_cons]

/-- Takes the leading records of one priority off, again and again. -/
def orderGroups (rest : List Candidate) (s : σ) : List Candidate × σ :=
  if _h : rest = [] then ([], s)
  else
    let ordered := selectAll draw (rest.take (boundary rest)) s
    let further := orderGroups (rest.drop (boundary rest)) ordered.2
    (ordered.1 ++ further.1, further.2)
termination_by rest.length
decreasing_by
  obtain ⟨first, others, rfl⟩ := List.exists_cons_of_ne_nil _h
  rw [boundary_cons, List.drop_succ_cons, List.length_drop, List.length_cons]
  omega

def order (candidates : List Candidate) (s : σ) : List Candidate × σ :=
  orderGroups draw (candidates.mergeSort fun a b => a.priority ≤ b.priority) s

/-- The state after calls with these bounds. -/
def afterCalls (bounds : List ℕ) (s : σ) : σ := bounds.foldl (fun s b => (draw s b).2) s

theorem afterCalls_append (before after : List ℕ) (s : σ) :
    afterCalls draw (before ++ after) s = afterCalls draw after (afterCalls draw before s) := List.foldl_append

theorem selectAll_nil (s : σ) : selectAll draw [] s = ([], s) := by simp [selectAll]

theorem selectAll_of_ne {group : List Candidate} (h : group ≠ []) (s : σ) :
    let drawn := draw s (bound group)
    let selected := selectAll draw (group.eraseIdx (chosen group drawn.1)) drawn.2
    selectAll draw group s = (group.get ⟨chosen group drawn.1, chosen_lt h drawn.1⟩ :: selected.1, selected.2) := by
  rw [selectAll, dif_neg h]
  rfl

theorem head_selectAll {group : List Candidate} (h : group ≠ []) (s : σ) :
    (selectAll draw group s).1.head? = group[chosen group (draw s (bound group)).1]? := by
  rw [selectAll_of_ne draw h, List.head?_cons, List.get_eq_getElem, List.getElem?_eq_getElem]

theorem selectAll_perm (group : List Candidate) (s : σ) : (selectAll draw group s).1.Perm group := by
  induction group, s using selectAll.induct draw with
  | case1 s => rw [selectAll_nil]
  | case2 group s h drawn index hlt ih =>
    rw [selectAll_of_ne draw h]
    exact (ih.cons _).trans (List.getElem_cons_eraseIdx_perm hlt)

/-- One call for each record. -/
theorem selectAll_calls (group : List Candidate) (s : σ) :
    ∃ bounds, bounds.length = group.length ∧ (selectAll draw group s).2 = afterCalls draw bounds s := by
  induction group, s using selectAll.induct draw with
  | case1 s => exact ⟨[], rfl, by rw [selectAll_nil]; rfl⟩
  | case2 group s h drawn index hlt ih =>
    obtain ⟨bounds, hlength, hstate⟩ := ih
    refine ⟨bound group :: bounds, ?_, ?_⟩
    · rw [List.length_cons, hlength, List.length_eraseIdx_of_lt hlt]
      omega
    · rw [selectAll_of_ne draw h]
      exact hstate

theorem orderGroups_nil (s : σ) : orderGroups draw [] s = ([], s) := by simp [orderGroups]

theorem orderGroups_of_ne {rest : List Candidate} (h : rest ≠ []) (s : σ) :
    let ordered := selectAll draw (rest.take (boundary rest)) s
    let further := orderGroups draw (rest.drop (boundary rest)) ordered.2
    orderGroups draw rest s = (ordered.1 ++ further.1, further.2) := by
  rw [orderGroups, dif_neg h]

theorem orderGroups_perm (rest : List Candidate) (s : σ) : (orderGroups draw rest s).1.Perm rest := by
  induction rest, s using orderGroups.induct draw with
  | case1 s => rw [orderGroups_nil]
  | case2 rest s h ordered ih =>
    rw [orderGroups_of_ne draw h]
    have hparts := (selectAll_perm draw (rest.take (boundary rest)) s).append ih
    rwa [List.take_append_drop] at hparts

theorem orderGroups_calls (rest : List Candidate) (s : σ) :
    ∃ bounds, bounds.length = rest.length ∧ (orderGroups draw rest s).2 = afterCalls draw bounds s := by
  induction rest, s using orderGroups.induct draw with
  | case1 s => exact ⟨[], rfl, by rw [orderGroups_nil]; rfl⟩
  | case2 rest s h ordered ih =>
    obtain ⟨before, hbefore, hordered⟩ := selectAll_calls draw (rest.take (boundary rest)) s
    obtain ⟨after, hafter, hfurther⟩ := ih
    refine ⟨before ++ after, ?_, ?_⟩
    · rw [List.length_append, hbefore, hafter, ← List.length_append, List.take_append_drop]
    · rw [orderGroups_of_ne draw h, afterCalls_append, ← hordered]
      exact hfurther

/-- In the order of their priorities. -/
def Ascending (candidates : List Candidate) : Prop := candidates.Pairwise fun a b => a.priority ≤ b.priority

/-- Of ascending records the leading ones have the lowest priority and the others a higher one. -/
theorem boundary_splits {first : Candidate} {others : List Candidate} (h : Ascending (first :: others)) :
    (∀ c ∈ (first :: others).take (boundary (first :: others)), c.priority = first.priority) ∧
      ∀ c ∈ (first :: others).drop (boundary (first :: others)), first.priority < c.priority := by
  obtain ⟨hfirst, hothers⟩ := List.pairwise_cons.mp h
  rw [boundary_cons, List.take_succ_cons, List.drop_succ_cons]
  clear h
  induction others with
  | nil => simp
  | cons second others ih =>
    obtain ⟨hsecond, hlater⟩ := List.pairwise_cons.mp hothers
    have hle := hfirst second List.mem_cons_self
    rw [List.findIdx_cons]
    by_cases hsame : second.priority = first.priority
    · have ih := ih (fun c hc => hfirst c (List.mem_cons_of_mem _ hc)) hlater
      simpa [hsame] using ih
    · have hlt : first.priority < second.priority := UInt16.lt_of_le_of_ne hle (Ne.symm hsame)
      rw [bne_iff_ne.mpr hsame, cond_true, List.take_zero, List.drop_zero]
      refine ⟨by simp, List.forall_mem_cons.mpr ⟨hlt, fun c hc => ?_⟩⟩
      exact UInt16.lt_of_lt_of_le hlt (hsecond c hc)

/-- The records of a priority, in the order of their arrival. -/
def groupOf (candidates : List Candidate) (priority : UInt16) : List Candidate :=
  candidates.filter (·.priority = priority)

theorem orderGroups_ascending {rest : List Candidate} (s : σ) (hsorted : Ascending rest) :
    Ascending (orderGroups draw rest s).1 := by
  induction rest, s using orderGroups.induct draw with
  | case1 s => rwa [orderGroups_nil]
  | case2 rest s h ordered ih =>
    obtain ⟨first, others, rfl⟩ := List.exists_cons_of_ne_nil h
    obtain ⟨hsame, hhigher⟩ := boundary_splits hsorted
    rw [orderGroups_of_ne draw h]
    have hordered : ∀ c ∈ (selectAll draw ((first :: others).take (boundary (first :: others))) s).1,
        c.priority = first.priority := fun c hc => hsame c ((selectAll_perm draw _ s).mem_iff.mp hc)
    refine List.pairwise_append.mpr ⟨?_, ih (hsorted.sublist (List.drop_sublist _ _)), ?_⟩
    · refine List.pairwise_of_forall_mem_list fun a ha b hb => ?_
      rw [hordered a ha, hordered b hb]
      exact UInt16.le_refl _
    · intro a ha b hb
      rw [hordered a ha]
      exact UInt16.le_of_lt (hhigher b ((orderGroups_perm draw _ _).mem_iff.mp hb))

theorem groupOf_eq_self {candidates : List Candidate} {priority : UInt16}
    (h : ∀ c ∈ candidates, c.priority = priority) : groupOf candidates priority = candidates :=
  List.filter_eq_self.mpr fun c hc => decide_eq_true (h c hc)

theorem groupOf_eq_nil {candidates : List Candidate} {priority : UInt16}
    (h : ∀ c ∈ candidates, c.priority ≠ priority) : groupOf candidates priority = [] :=
  List.filter_eq_nil_iff.mpr fun c hc => by simpa using h c hc

theorem groupOf_append (before after : List Candidate) (priority : UInt16) :
    groupOf (before ++ after) priority = groupOf before priority ++ groupOf after priority := List.filter_append ..

/-- The records of a priority begin with the one that the draw made for the whole
group lands on; by then there was one call for each record of a lower priority. -/
theorem head_groupOf_orderGroups {rest : List Candidate} {priority : UInt16} (s : σ) (hsorted : Ascending rest)
    (hgroup : groupOf rest priority ≠ []) :
    ∃ before : List ℕ, before.length = rest.countP (·.priority < priority) ∧
      (groupOf (orderGroups draw rest s).1 priority).head? =
        (groupOf rest priority)[chosen (groupOf rest priority)
          (draw (afterCalls draw before s) (bound (groupOf rest priority))).1]? := by
  induction rest, s using orderGroups.induct draw with
  | case1 s => exact absurd rfl hgroup
  | case2 rest s h ordered ih =>
    obtain ⟨first, others, rfl⟩ := List.exists_cons_of_ne_nil h
    obtain ⟨hsame, hhigher⟩ := boundary_splits hsorted
    have hparts := List.take_append_drop (boundary (first :: others)) (first :: others)
    have hsplit := groupOf_append ((first :: others).take (boundary (first :: others)))
      ((first :: others).drop (boundary (first :: others))) priority
    rw [hparts] at hsplit
    have hordered : ∀ c ∈ ordered.1, c.priority = first.priority :=
      fun c hc => hsame c ((selectAll_perm draw _ s).mem_iff.mp hc)
    have hfurther : ∀ c ∈ (orderGroups draw ((first :: others).drop (boundary (first :: others))) ordered.2).1,
        first.priority < c.priority := fun c hc => hhigher c ((orderGroups_perm draw _ _).mem_iff.mp hc)
    rw [orderGroups_of_ne draw h, groupOf_append]
    by_cases hp : first.priority = priority
    · subst hp
      rw [groupOf_eq_self hsame, groupOf_eq_nil fun c hc => (UInt16.ne_of_lt (hhigher c hc)).symm,
        List.append_nil] at hsplit
      rw [groupOf_eq_self hordered, groupOf_eq_nil fun c hc => (UInt16.ne_of_lt (hfurther c hc)).symm,
        List.append_nil, hsplit]
      refine ⟨[], ?_, head_selectAll draw (hsplit ▸ hgroup) s⟩
      refine (List.countP_eq_zero.mpr fun c hc => ?_).symm
      have hle : first.priority ≤ c.priority := by
        rcases List.mem_cons.mp hc with rfl | hc
        · exact UInt16.le_refl _
        · exact (List.pairwise_cons.mp hsorted).1 c hc
      simpa [UInt16.not_lt] using hle
    · have hnone : groupOf ((first :: others).take (boundary (first :: others))) priority = [] :=
        groupOf_eq_nil fun c hc => hsame c hc ▸ hp
      rw [hnone, List.nil_append] at hsplit
      rw [hsplit] at hgroup ⊢
      obtain ⟨before, hbefore, hhead⟩ := ih (hsorted.sublist (List.drop_sublist _ _)) hgroup
      obtain ⟨bounds, hbounds, hstate⟩ := selectAll_calls draw ((first :: others).take (boundary (first :: others))) s
      have hlower : first.priority < priority := by
        obtain ⟨c, hc⟩ := List.exists_mem_of_ne_nil _ hgroup
        obtain ⟨hc, hpriority⟩ := List.mem_filter.mp hc
        exact of_decide_eq_true hpriority ▸ hhigher c hc
      refine ⟨bounds ++ before, ?_, ?_⟩
      · have hall : ((first :: others).take (boundary (first :: others))).countP (·.priority < priority) =
            ((first :: others).take (boundary (first :: others))).length :=
          List.countP_eq_length.mpr fun c hc => decide_eq_true (hsame c hc ▸ hlower)
        conv_rhs => rw [← hparts]
        rw [List.length_append, hbounds, hbefore, List.countP_append, hall]
      · rw [groupOf_eq_nil fun c hc => hordered c hc ▸ hp, List.nil_append, afterCalls_append, ← hstate]
        exact hhead

end Kmsrs.Discover
