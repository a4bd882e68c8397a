import Kmsrs.Policy.Drawing

/-! The bounded draws. A word is masked to as many bits as the bound has, and rejected if it
is not below it; each number below the bound is left by the same number of words, and fewer
than half of the words are rejected. A range is drawn by the number of its values, which
saturates for the range of all words. -/

namespace Kmsrs.Policy

open Kms Draw

/-! ### Remainders -/

/-- Every remainder has the same share of the numbers below a multiple. -/
theorem card_filter_mod_eq {m r : ℕ} (k : ℕ) (h : r < m) : ((Finset.range (m * k)).filter fun n => n % m = r).card = k := by
  have hm : 0 < m := Nat.zero_lt_of_lt h
  have himage : (Finset.range (m * k)).filter (fun n => n % m = r) = (Finset.range k).image fun i => r + m * i := by
    ext n
    simp only [Finset.mem_filter, Finset.mem_range, Finset.mem_image]
    constructor
    · rintro ⟨hn, hr⟩
      exact ⟨n / m, Nat.div_lt_of_lt_mul hn, hr ▸ Nat.mod_add_div n m⟩
    · rintro ⟨i, hi, rfl⟩
      refine ⟨?_, by rw [Nat.add_mul_mod_self_left, Nat.mod_eq_of_lt h]⟩
      calc r + m * i < m + m * i := Nat.add_lt_add_right h _
        _ = m * (i + 1) := by ring
        _ ≤ m * k := Nat.mul_le_mul_left m hi
  have hinjective : Function.Injective fun i => r + m * i := fun i j hij =>
    Nat.eq_of_mul_eq_mul_left hm (Nat.add_left_cancel hij)
  rw [himage, Finset.card_image_of_injective _ hinjective, Finset.card_range]

/-! ### Words for a value -/

/-- How many words a draw takes so. -/
def wordsFor {α : Type} [DecidableEq α] (accept : ℕ → Option α) (outcome : Option α) : ℕ :=
  ((Finset.range (2 ^ 32)).filter fun word => accept word = outcome).card

/-- The bits of the numbers below the bound. -/
def significantBits (bound : ℕ) : ℕ := (bound - 1).size

theorem significantBits_le {bound : ℕ} (h : bound ≤ 2 ^ 32) : significantBits bound ≤ 32 := Nat.size_le.mpr (by omega)

/-- The mask is the least that leaves these numbers, so the bound is above its half. -/
theorem significantBits_spec {bound : ℕ} (hpos : 0 < bound) :
    bound ≤ 2 ^ significantBits bound ∧ 2 ^ significantBits bound < 2 * bound := by
  have hlt := Nat.lt_size_self (bound - 1)
  refine ⟨by rw [significantBits]; omega, ?_⟩
  rw [significantBits]
  cases hsize : (bound - 1).size with
  | zero => omega
  | succ bits =>
    have hle : 2 ^ bits ≤ bound - 1 := Nat.lt_size.mp (by omega)
    rw [pow_succ]
    omega

theorem candidate_eq {bound : ℕ} (h : bound ≤ 2 ^ 32) (word : ℕ) : candidate bound word =
    if word % 2 ^ significantBits bound < bound then some (word % 2 ^ significantBits bound) else none := by
  rw [candidate, maskFor_eq h, ← significantBits, Nat.and_two_pow_sub_one_eq_mod]

theorem candidate_eq_some_iff {bound word value : ℕ} (h : bound ≤ 2 ^ 32) :
    candidate bound word = some value ↔ word % 2 ^ significantBits bound = value ∧ value < bound := by
  rw [candidate_eq h]
  split_ifs with hlt
  · rw [Option.some.injEq]
    exact ⟨fun heq => ⟨heq, heq ▸ hlt⟩, And.left⟩
  · simp only [false_iff, not_and]
    rintro rfl
    exact hlt

/-- As many words for each number below the bound. -/
theorem wordsFor_candidate {bound value : ℕ} (h : bound ≤ 2 ^ 32) (hvalue : value < bound) :
    wordsFor (candidate bound) (some value) = 2 ^ (32 - significantBits bound) := by
  have hbits := significantBits_le h
  have hwords : 2 ^ 32 = 2 ^ significantBits bound * 2 ^ (32 - significantBits bound) := by
    rw [← pow_add, Nat.add_sub_cancel' hbits]
  have hroom := (significantBits_spec (Nat.zero_lt_of_lt hvalue)).1
  have hshare := card_filter_mod_eq (2 ^ (32 - significantBits bound)) (hvalue.trans_le hroom)
  rw [← hwords] at hshare
  refine Eq.trans (congrArg Finset.card (Finset.filter_congr fun word _ => ?_)) hshare
  rw [candidate_eq_some_iff h]
  exact and_iff_left hvalue

/-- The words that are rejected and those that are not. -/
theorem wordsFor_none_add {bound : ℕ} (h : bound ≤ 2 ^ 32) :
    wordsFor (candidate bound) none + bound * 2 ^ (32 - significantBits bound) = 2 ^ 32 := by
  have haccepted : ((Finset.range (2 ^ 32)).filter fun word => ¬ candidate bound word = none).card =
      bound * 2 ^ (32 - significantBits bound) := by
    have hfibres := Finset.card_eq_sum_card_fiberwise (f := fun word => word % 2 ^ significantBits bound)
      (s := (Finset.range (2 ^ 32)).filter fun word => ¬ candidate bound word = none) (t := Finset.range bound) ?_
    · rw [hfibres, Finset.sum_congr rfl, Finset.sum_const, Finset.card_range, smul_eq_mul]
      intro value hvalue
      have hlt := Finset.mem_range.mp hvalue
      rw [← wordsFor_candidate h hlt, wordsFor, Finset.filter_filter]
      refine congrArg Finset.card (Finset.filter_congr fun word _ => ?_)
      rw [candidate_eq_some_iff h, candidate_eq h]
      constructor
      · rintro ⟨-, hword⟩
        exact ⟨hword, hlt⟩
      · rintro ⟨hword, -⟩
        exact ⟨by rw [hword, if_pos hlt]; simp, hword⟩
    · intro word hword
      have haccept := (Finset.mem_filter.mp hword).2
      rw [candidate_eq h] at haccept
      split_ifs at haccept with hlt
      · exact Finset.mem_coe.mpr (Finset.mem_range.mpr hlt)
      · exact absurd rfl haccept
  rw [← haccepted, wordsFor, Finset.card_filter_add_card_filter_not, Finset.card_range]

/-! ### Draws -/

section
variable {α β : Type}

/-- Whatever the source, the first word that is not rejected gives what is drawn. -/
def Decides (accept : ℕ → Option α) (draw : {ε : Type} → EntropySource ε → Draw ε α) : Prop :=
  ∀ {ε : Type} (rng : EntropySource ε) (rounds : ℕ) (entropy : ε) (a : α),
    (draw rng rounds entropy).1 = .drawn a ↔ FirstAccepted (nextU32 rng) accept rounds entropy a

/-- Each of these values is drawn from the same number of words, and nothing else is drawn. -/
def UniformOver [DecidableEq α] (draw : {ε : Type} → EntropySource ε → Draw ε α) (legal : Set α) : Prop :=
  ∃ accept, Decides accept draw ∧ (∀ word a, accept word = some a → a ∈ legal) ∧
    ∃ share, 0 < share ∧ ∀ a ∈ legal, wordsFor accept (some a) = share

/-- What is made of a uniform draw, each value of one drawn, is uniform. -/
theorem UniformOver.bind_ofOption [DecidableEq α] [DecidableEq β] {draw : {ε : Type} → EntropySource ε → Draw ε α}
    {drawn : Set α} {legal : Set β} (h : UniformOver draw drawn) {f : α → Option β} (hf : Set.BijOn f drawn (some '' legal)) :
    UniformOver (fun rng => draw rng >>= fun a => ofOption (f a)) legal := by
  obtain ⟨accept, hdecides, honly, share, hpos, hshare⟩ := h
  have hsome : ∀ a ∈ drawn, ∃ b ∈ legal, f a = some b := fun a ha =>
    (hf.mapsTo ha).imp fun b hb => ⟨hb.1, hb.2.symm⟩
  have hreject : ∀ word, (accept word).bind f = none → accept word = none := by
    intro word hnone
    cases haccept : accept word with
    | none => rfl
    | some a =>
      obtain ⟨b, -, hb⟩ := hsome a (honly word a haccept)
      rw [haccept, Option.bind_some, hb] at hnone
      cases hnone
  refine ⟨fun word => (accept word).bind f, ?_, ?_, share, hpos, ?_⟩
  · intro ε rng rounds entropy b
    have hdrawn : ((draw rng >>= fun a => ofOption (f a)) rounds entropy).1 = .drawn b ↔
        ∃ a, (draw rng rounds entropy).1 = .drawn a ∧ f a = some b := by
      simp only [bind_eq_drawn_iff, ofOption_eq_drawn_iff]
      constructor
      · rintro ⟨a, after, ha, hb⟩
        exact ⟨a, congrArg Prod.fst ha, hb⟩
      · rintro ⟨a, ha, hb⟩
        exact ⟨a, (draw rng rounds entropy).2, Prod.ext ha rfl, hb⟩
    rw [hdrawn]
    constructor
    · rintro ⟨a, ha, hb⟩
      obtain ⟨n, hn, ⟨word, hword, haccept⟩, hbefore⟩ := (hdecides rng rounds entropy a).mp ha
      refine ⟨n, hn, ⟨word, hword, by simp only [haccept, Option.bind_some, hb]⟩, fun m hm => ?_⟩
      obtain ⟨rejected, hrejected, hnone⟩ := hbefore m hm
      exact ⟨rejected, hrejected, by simp only [hnone, Option.bind_none]⟩
    · rintro ⟨n, hn, ⟨word, hword, haccept⟩, hbefore⟩
      obtain ⟨a, ha, hb⟩ := Option.bind_eq_some_iff.mp haccept
      refine ⟨a, (hdecides rng rounds entropy a).mpr ⟨n, hn, ⟨word, hword, ha⟩, fun m hm => ?_⟩, hb⟩
      obtain ⟨rejected, hrejected, hnone⟩ := hbefore m hm
      exact ⟨rejected, hrejected, hreject rejected hnone⟩
  · intro word b hb
    obtain ⟨a, ha, hb⟩ := Option.bind_eq_some_iff.mp hb
    obtain ⟨made, hmade, hsame⟩ := hsome a (honly word a ha)
    obtain rfl := Option.some.inj (hsame.symm.trans hb)
    exact hmade
  · intro b hb
    obtain ⟨a, ha, hmade⟩ := hf.surjOn ⟨b, hb, rfl⟩
    rw [← hshare a ha, wordsFor, wordsFor]
    refine congrArg Finset.card (Finset.filter_congr fun word _ => ?_)
    rw [Option.bind_eq_some_iff]
    constructor
    · rintro ⟨other, hother, hsame⟩
      rw [hother, hf.injOn (honly word other hother) ha (hsame.trans hmade.symm)]
    · intro haccept
      exact ⟨a, haccept, hmade⟩

end

structure UniformBelow (bound : ℕ) : Prop where
  first : Decides (candidate bound) fun rng => uniformBelow rng bound
  below : ∀ word value, candidate bound word = some value → value < bound
  rejects : 2 * wordsFor (candidate bound) none < 2 ^ 32
  same : ∃ share, 0 < share ∧ ∀ value < bound, wordsFor (candidate bound) (some value) = share

theorem UniformBelow.uniformOver {bound : ℕ} (h : UniformBelow bound) :
    UniformOver (fun rng => uniformBelow rng bound) (Set.Iio bound) :=
  ⟨candidate bound, h.first, h.below, h.same⟩

/-- Every value of the range, and nothing else. -/
def UniformBetween (low high : ℕ) : Prop := UniformOver (fun rng => uniformInInclusiveRange rng low high) (Set.Icc low high)

theorem decides_uniformBelow (bound : ℕ) : Decides (candidate bound) fun rng => uniformBelow rng bound := by
  intro ε rng rounds entropy value
  exact retry_eq_drawn_iff

theorem wordsFor_none_lt {bound : ℕ} (hpos : 0 < bound) (h : bound ≤ 2 ^ 32) : 2 * wordsFor (candidate bound) none < 2 ^ 32 := by
  have hsum := wordsFor_none_add h
  have hroom := (significantBits_spec hpos).2
  have hwords : 2 ^ 32 = 2 ^ significantBits bound * 2 ^ (32 - significantBits bound) := by
    rw [← pow_add, Nat.add_sub_cancel' (significantBits_le h)]
  have hhalf : 2 ^ significantBits bound * 2 ^ (32 - significantBits bound) <
      2 * bound * 2 ^ (32 - significantBits bound) := Nat.mul_lt_mul_of_pos_right hroom (by positivity)
  rw [← hwords, Nat.mul_assoc] at hhalf
  omega

theorem uniformBelow_uniform {bound : ℕ} (hpos : 0 < bound) (h : bound ≤ 2 ^ 32) : UniformBelow bound where
  first := decides_uniformBelow bound
  below _ _ := candidate_lt
  rejects := wordsFor_none_lt hpos h
  same := ⟨_, by positivity, fun _ => wordsFor_candidate h⟩

/-- A range that is not that of all words is drawn from its low end on. -/
theorem uniformBetween_of_part {low high : ℕ} (h : low ≤ high) (hhigh : high < 2 ^ 32) (hpart : ¬(low = 0 ∧ high = 2 ^ 32 - 1)) :
    UniformBetween low high := by
  have hdraw : ∀ {ε : Type} (rng : EntropySource ε), uniformInInclusiveRange rng low high =
      uniformBelow rng (high - low + 1) >>= fun value => ofOption (some (min (2 ^ 32 - 1) (low + value))) := by
    intro ε rng
    rw [uniformInInclusiveRange, if_neg (by omega), min_eq_right (by omega), if_neg (by omega)]
    rfl
  have hbijective : Set.BijOn (fun value => some (min (2 ^ 32 - 1) (low + value))) (Set.Iio (high - low + 1))
      (some '' Set.Icc low high) := by
    refine ⟨?_, ?_, ?_⟩
    · intro value hvalue
      have hlt := Set.mem_Iio.mp hvalue
      exact ⟨_, ⟨by omega, by omega⟩, rfl⟩
    · intro value hvalue other hother hsame
      have hlt := Set.mem_Iio.mp hvalue
      have hlt' := Set.mem_Iio.mp hother
      have := Option.some.inj hsame
      omega
    · rintro _ ⟨value, ⟨hlow, hle⟩, rfl⟩
      refine ⟨value - low, Set.mem_Iio.mpr (by omega), congrArg some ?_⟩
      omega
  rw [UniformBetween]
  simp only [hdraw]
  exact (uniformBelow_uniform (Nat.succ_pos _) (by omega)).uniformOver.bind_ofOption hbijective

/-- Of all words the last is never drawn: the number of values saturates. -/
theorem not_uniformBetween_whole : ¬ UniformBetween 0 (2 ^ 32 - 1) := by
  rintro ⟨accept, hdecides, -, share, hpos, hshare⟩
  have hlast := hshare (2 ^ 32 - 1) ⟨Nat.zero_le _, le_rfl⟩
  obtain ⟨word, hword⟩ : ((Finset.range (2 ^ 32)).filter fun word => accept word = some (2 ^ 32 - 1)).Nonempty :=
    Finset.card_pos.mp (by rw [← wordsFor, hlast]; exact hpos)
  obtain ⟨hlt, haccept⟩ := Finset.mem_filter.mp hword
  have hdrawn : (uniformInInclusiveRange script 0 (2 ^ 32 - 1) 1 [word]).1 = .drawn (2 ^ 32 - 1) := by
    refine (hdecides script 1 [word] _).mpr ⟨0, Nat.one_pos, ⟨word, ?_, haccept⟩, by simp⟩
    rw [nth_zero, nextU32_script, List.headD_cons, UInt32.toNat_ofNat_of_lt' (Finset.mem_range.mp hlt)]
  have hbelow : Ensures (uniformInInclusiveRange script 0 (2 ^ 32 - 1)) (· < 2 ^ 32 - 1) := by
    rw [uniformInInclusiveRange, if_neg (by omega), if_neg (by omega)]
    exact (ensures_uniformBelow works_script _).bind fun value hvalue => .pure (by omega)
  have hmeets := hbelow 1 [word]
  rw [hdrawn] at hmeets
  exact absurd hmeets (lt_irrefl _)

/-- The last of all words cannot be drawn from the range of them. -/
theorem whole_range_not_uniform : ¬ ∀ low high, low ≤ high → high < 2 ^ 32 → UniformBetween low high :=
  fun h => not_uniformBetween_whole (h 0 (2 ^ 32 - 1) (Nat.zero_le _) (by norm_num))

/-- Every bounded draw is uniform but that from the range of all words. -/
theorem uniform_iff_not_whole (bound low high : ℕ) :
    (0 < bound → bound < 2 ^ 32 → UniformBelow bound) ∧
      (low ≤ high → high < 2 ^ 32 → (UniformBetween low high ↔ ¬(low = 0 ∧ high = 2 ^ 32 - 1))) := by
  refine ⟨fun hpos hlt => uniformBelow_uniform hpos hlt.le, fun hle hhigh => ⟨?_, uniformBetween_of_part hle hhigh⟩⟩
  rintro huniform ⟨rfl, rfl⟩
  exact not_uniformBetween_whole huniform

end Kmsrs.Policy
