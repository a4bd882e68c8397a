import Kmsrs.Kms.Types

/-! What a name becomes when it is decoded: no unit is left out, and no unit becomes
a character of the first rows of the code but the one of the same number. -/

namespace Kmsrs.Kms

theorem toNat_charOfNat {n : ℕ} (h : n.isValidChar) : (Char.ofNat n).toNat = n := by
  rw [Char.ofNat, dif_pos h]
  rfl

/-- The five high bits of a unit. -/
theorem toNat_and_high (unit : UInt16) : (unit &&& 0xF800).toNat = unit.toNat / 2 ^ 11 * 2 ^ 11 := by
  have hunit : unit.toNat < 2 ^ 16 := unit.toNat_lt
  have hlow : ∀ i < 11, Nat.testBit 0xF800 i = false := by decide
  have hhigh : ∀ i < 16, 11 ≤ i → Nat.testBit 0xF800 i = true := by decide
  rw [UInt16.toNat_and, show (0xF800 : UInt16).toNat = 0xF800 from rfl]
  apply Nat.eq_of_testBit_eq
  intro i
  rw [Nat.testBit_and, Nat.testBit_mul_two_pow, Nat.testBit_div_two_pow]
  rcases lt_or_ge i 11 with hi | hi
  · rw [hlow i hi, decide_eq_false (by omega), Bool.and_false, Bool.false_and]
  · rw [decide_eq_true hi, Bool.true_and, Nat.sub_add_cancel hi]
    rcases lt_or_ge i 16 with hi' | hi'
    · rw [hhigh i hi' hi, Bool.and_true]
    · rw [Nat.testBit_lt_two_pow (hunit.trans_le (Nat.pow_le_pow_right (by norm_num) hi')), Bool.false_and]

theorem isSurrogate_iff {unit : UInt16} : isSurrogate unit ↔ 0xD800 ≤ unit.toNat ∧ unit.toNat < 0xE000 := by
  rw [isSurrogate, decide_eq_true_eq, ← UInt16.toNat_inj, toNat_and_high, show (0xD800 : UInt16).toNat = 0xD800 from rfl]
  omega

/-- A unit that is no surrogate is its own character. -/
theorem toNat_ofNat_unit {unit : UInt16} (h : ¬ isSurrogate unit) : (Char.ofNat unit.toNat).toNat = unit.toNat := by
  rw [isSurrogate_iff] at h
  have hunit : unit.toNat < 2 ^ 16 := unit.toNat_lt
  exact toNat_charOfNat (by simp only [Nat.isValidChar]; omega)

/-- Two surrogates are a character above the first plane. -/
theorem toNat_ofNat_pair (leading trailing : UInt16) :
    0x10000 ≤ (Char.ofNat (((leading &&& 0x3FF).toNat <<< 10 ||| (trailing &&& 0x3FF).toNat) + 0x10000)).toNat := by
  have hmask : ∀ unit : UInt16, (unit &&& 0x3FF).toNat < 2 ^ 10 := by
    intro unit
    rw [UInt16.toNat_and]
    exact Nat.and_lt_two_pow _ (by decide)
  have hor : (leading &&& 0x3FF).toNat <<< 10 ||| (trailing &&& 0x3FF).toNat < 2 ^ 20 := by
    refine Nat.or_lt_two_pow ?_ ((hmask trailing).trans (by norm_num))
    have := hmask leading
    rw [Nat.shiftLeft_eq]
    omega
  rw [toNat_charOfNat (by simp only [Nat.isValidChar]; omega)]
  omega

/-- The characters of a name, with what does not decode replaced. -/
def decodeLossy (units : List UInt16) : List Char :=
  (decodeUtf16 units).map fun character => character.getD (Char.ofNat 0xFFFD)

/-- A character of the first rows stands where its unit does. -/
theorem exists_mem_decodeLossy {p : ℕ → Prop} (hp : ∀ n, p n → n < 0xD800) (units : List UInt16) :
    (∃ c ∈ decodeLossy units, p c.toNat) ↔ ∃ unit ∈ units, p unit.toNat := by
  have hreplaced : ¬ p (Char.ofNat 0xFFFD).toNat := fun h => absurd (hp _ h) (by decide)
  have hsurrogate : ∀ unit : UInt16, isSurrogate unit → ¬ p unit.toNat := by
    intro unit hunit h
    have := (isSurrogate_iff.mp hunit).1
    have := hp _ h
    omega
  rw [decodeLossy]
  fun_induction decodeUtf16 units with
  | case1 => simp
  | case2 unit =>
    split_ifs with h
    · simp only [List.map_cons, List.exists_mem_cons_iff, Option.getD_none, hreplaced, hsurrogate unit h]
      simp
    · simp only [List.map_cons, List.exists_mem_cons_iff, Option.getD_some, toNat_ofNat_unit h]
      simp
  | case3 unit trailing rest h ih =>
    rw [Bool.not_eq_eq_eq_not, Bool.not_true, ← Bool.not_eq_true] at h
    rw [List.map_cons, List.exists_mem_cons_iff, Option.getD_some, toNat_ofNat_unit h,
      List.exists_mem_cons_iff (a := unit)]
    exact or_congr_right ih
  | case4 unit trailing rest h _ ih =>
    rw [Bool.not_eq_eq_eq_not, Bool.not_true, Bool.not_eq_false] at h
    rw [List.map_cons, List.exists_mem_cons_iff, Option.getD_none, List.exists_mem_cons_iff (a := unit)]
    simp only [hreplaced, hsurrogate unit h, false_or]
    exact ih
  | case5 unit trailing rest h htrailing ih =>
    rw [Bool.not_eq_eq_eq_not, Bool.not_true, Bool.not_eq_false] at h
    have hpair : ¬ p (Char.ofNat (((unit &&& 0x3FF).toNat <<< 10 ||| (trailing &&& 0x3FF).toNat) + 0x10000)).toNat := by
      intro hbad
      have := hp _ hbad
      have := toNat_ofNat_pair unit trailing
      omega
    have hsecond : ¬ p trailing.toNat := by
      intro hbad
      have hlow := hp _ hbad
      rw [not_or, not_or] at htrailing
      have htrail : (0xDC00 : UInt16).toNat ≤ trailing.toNat := UInt16.not_lt.mp htrailing.2.1
      rw [show (0xDC00 : UInt16).toNat = 0xDC00 from rfl] at htrail
      omega
    rw [List.map_cons, List.exists_mem_cons_iff, Option.getD_some, List.exists_mem_cons_iff (a := unit),
      List.exists_mem_cons_iff (a := trailing)]
    simp only [hpair, hsurrogate unit h, hsecond, false_or]
    exact ih

theorem decodeLossy_cons {unit : UInt16} (h : ¬ isSurrogate unit) (units : List UInt16) :
    decodeLossy (unit :: units) = Char.ofNat unit.toNat :: decodeLossy units := by
  cases units with
  | nil => simp [decodeLossy, decodeUtf16, h]
  | cons trailing rest => simp [decodeLossy, decodeUtf16, h]

/-- A character of the basic plane is its own unit, and no surrogate. -/
theorem unit_of_basic {c : Char} (h : c.toNat ≤ 0xFFFF) :
    (UInt16.ofNat c.toNat).toNat = c.toNat ∧ ¬ isSurrogate (UInt16.ofNat c.toNat) := by
  have hunit : (UInt16.ofNat c.toNat).toNat = c.toNat := UInt16.toNat_ofNat_of_lt' (by simp only [UInt16.size]; omega)
  have hvalid : c.toNat.isValidChar := c.valid
  refine ⟨hunit, ?_⟩
  rw [isSurrogate_iff, hunit]
  simp only [Nat.isValidChar] at hvalid
  omega

theorem decodeLossy_map {text : List Char} (h : ∀ c ∈ text, c.toNat ≤ 0xFFFF) :
    decodeLossy (text.map fun c => UInt16.ofNat c.toNat) = text := by
  induction text with
  | nil => rfl
  | cons c text ih =>
    rw [List.forall_mem_cons] at h
    obtain ⟨hunit, hplain⟩ := unit_of_basic h.1
    rw [List.map_cons, decodeLossy_cons hplain, hunit, ih h.2, Char.ofNat_toNat]

theorem utf8Size_le_three {c : Char} (h : c.toNat < 0x10000) : c.utf8Size ≤ 3 := by
  have hval : c.val.toNat ≤ 0xFFFF := by
    have : c.toNat = c.val.toNat := rfl
    omega
  unfold Char.utf8Size
  dsimp only
  split_ifs with h1 h2 h3
  · norm_num
  · norm_num
  · norm_num
  · exact absurd hval h3

/-- Three bytes for each unit are enough. -/
theorem utf8_decodeLossy_le (units : List UInt16) : ((decodeLossy units).map Char.utf8Size).sum ≤ 3 * units.length := by
  have hreplaced : (Char.ofNat 0xFFFD).utf8Size ≤ 3 := by decide
  have hunit : ∀ unit : UInt16, ¬ isSurrogate unit → (Char.ofNat unit.toNat).utf8Size ≤ 3 := by
    intro unit h
    refine utf8Size_le_three ?_
    rw [toNat_ofNat_unit h]
    exact unit.toNat_lt
  rw [decodeLossy]
  fun_induction decodeUtf16 units with
  | case1 => simp
  | case2 unit =>
    split_ifs with h
    · simpa using hreplaced
    · simpa using hunit unit h
  | case3 unit trailing rest h ih =>
    have := hunit unit (by simpa using h)
    simp only [List.map_cons, List.sum_cons, List.length_cons, Option.getD_some] at ih ⊢
    omega
  | case4 unit trailing rest h _ ih =>
    simp only [List.map_cons, List.sum_cons, List.length_cons, Option.getD_none] at ih ⊢
    omega
  | case5 unit trailing rest h htrailing ih =>
    have := Char.utf8Size_le_four (Char.ofNat (((unit &&& 0x3FF).toNat <<< 10 ||| (trailing &&& 0x3FF).toNat) + 0x10000))
    rw [List.map_cons, List.map_cons, List.sum_cons, Option.getD_some, List.length_cons, List.length_cons]
    omega

theorem WorkstationName.text_extend (name : WorkstationName) (characters : List Char)
    (h : ((name.text ++ characters).map Char.utf8Size).sum ≤ workstationNameBytes) :
    (name.extend characters).text = name.text ++ characters := by
  induction characters generalizing name with
  | nil => rw [extend, List.append_nil]
  | cons character characters ih =>
    have hfits : (name.text.map Char.utf8Size).sum + character.utf8Size ≤ workstationNameBytes := by
      simp only [List.map_append, List.map_cons, List.sum_append, List.sum_cons] at h
      omega
    rw [extend, tryPush, dif_pos hfits]
    dsimp only
    rw [ih _ (by rwa [List.append_assoc]), List.append_assoc, List.singleton_append]

/-- The whole of the name up to the first NUL is decoded. -/
theorem WorkstationName.text_decode (units : Vector UInt16 64) :
    (WorkstationName.decode units).text = decodeLossy (units.toList.takeWhile (· ≠ 0)) := by
  have hlength : (units.toList.takeWhile (· ≠ 0)).length ≤ 64 := by
    have := (List.takeWhile_sublist (· ≠ 0) (l := units.toList)).length_le
    simpa using this
  have hfits := utf8_decodeLossy_le (units.toList.takeWhile (· ≠ 0))
  rw [decode]
  refine (text_extend empty _ ?_).trans (List.nil_append _)
  rw [empty, List.nil_append, workstationNameBytes, workstationNameUnits, ← decodeLossy]
  omega

end Kmsrs.Kms
