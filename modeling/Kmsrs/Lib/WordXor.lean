import Kmsrs.Lib.Rows

/-! Maps of 32-bit words that respect exclusive or, such as the steps of a
shift-register generator. Two of them agree as soon as they agree on the words
with one bit set, and a generator that is such a map but for a constant now and
then has few cycles of a given length: once the length is known, the words on
them are among the sums of a few vectors. -/

namespace Kmsrs.WordXor

theorem xor_left_comm (a b c : UInt32) : a ^^^ (b ^^^ c) = b ^^^ (a ^^^ c) := by
  rw [← UInt32.xor_assoc, UInt32.xor_comm a b, UInt32.xor_assoc]

theorem xor_eq_iff {a b c : UInt32} : a ^^^ b = c ↔ a ^^^ c = b := by
  constructor
  · rintro rfl
    rw [← UInt32.xor_assoc, UInt32.xor_self, UInt32.zero_xor]
  · rintro rfl
    rw [← UInt32.xor_assoc, UInt32.xor_self, UInt32.zero_xor]

/-- Setting the lowest bit adds one or nothing. -/
theorem or_one (a : UInt32) : a ||| 1 = a ∨ a ||| 1 = a ^^^ 1 := by
  simp only [← UInt32.toBitVec_inj, UInt32.toBitVec_or, UInt32.toBitVec_xor]
  cases h : a.toBitVec.getLsbD 0 with
  | true =>
    left
    ext i hi
    cases i <;> simp_all [← BitVec.getLsbD_eq_getElem]
  | false =>
    right
    ext i hi
    cases i <;> simp_all [← BitVec.getLsbD_eq_getElem]

theorem or_one_of_odd {a : UInt32} (h : a &&& 1 = 1) : a ||| 1 = a := by
  have habsorb : a ||| (a &&& 1) = a := by
    apply UInt32.toBitVec_inj.mp
    ext i hi
    simp only [UInt32.toBitVec_or, UInt32.toBitVec_and, BitVec.getElem_or, BitVec.getElem_and]
    cases a.toBitVec[i] <;> rfl
  rwa [h] at habsorb

/-- The highest set bit, taken out. -/
theorem xor_log2_lt {n : ℕ} (h : n ≠ 0) : n ^^^ 2 ^ n.log2 < n := by
  refine lt_of_lt_of_le (Nat.lt_pow_two_of_testBit _ fun i hi => ?_) (Nat.log2_self_le h)
  rw [Nat.testBit_xor, Nat.testBit_two_pow]
  rcases Nat.eq_or_lt_of_le hi with rfl | hlt
  · rw [Nat.testBit_log2 h]
    simp
  · have hhigh : n < 2 ^ i := (Nat.lt_log2_self).trans_le (Nat.pow_le_pow_right (by norm_num) hlt)
    rw [Nat.testBit_lt_two_pow hhigh]
    simp [hlt.ne]

/-- Respecting exclusive or. -/
def Additive (f : UInt32 → UInt32) : Prop := ∀ x y, f (x ^^^ y) = f x ^^^ f y

namespace Additive

variable {f g : UInt32 → UInt32}

theorem map_zero (hf : Additive f) : f 0 = 0 := by
  have h := hf 0 0
  rw [UInt32.xor_self] at h
  exact h.trans UInt32.xor_self

theorem id : Additive fun x => x := fun _ _ => rfl

theorem const_zero : Additive fun _ => 0 := fun _ _ => by simp

theorem comp (hf : Additive f) (hg : Additive g) : Additive fun x => f (g x) :=
  fun x y => (congrArg f (hg x y)).trans (hf _ _)

theorem xor (hf : Additive f) (hg : Additive g) : Additive fun x => f x ^^^ g x := by
  intro x y
  simp only [hf x y, hg x y, UInt32.xor_assoc]
  rw [xor_left_comm (f y)]

theorem shiftLeft (c : UInt32) : Additive (· <<< c) := fun _ _ => UInt32.shiftLeft_xor

theorem shiftRight (c : UInt32) : Additive (· >>> c) := fun _ _ => UInt32.shiftRight_xor

theorem iterate (hf : Additive f) (n : ℕ) : Additive f^[n] := by
  induction n with
  | zero => exact id
  | succ n ih =>
    intro x y
    rw [Function.iterate_succ_apply, hf x y, ih, Function.iterate_succ_apply, Function.iterate_succ_apply]

/-- Agreement on the single bits is agreement everywhere. -/
theorem ext (hf : Additive f) (hg : Additive g) (h : ∀ i < 32, f (.ofNat (2 ^ i)) = g (.ofNat (2 ^ i)))
    (x : UInt32) : f x = g x := by
  induction hn : x.toNat using Nat.strong_induction_on generalizing x with
  | _ n ih =>
    by_cases hzero : n = 0
    · have hx : x = 0 := UInt32.toNat_inj.mp (hn.trans hzero)
      rw [hx, hf.map_zero, hg.map_zero]
    · have hlog : n.log2 < 32 := by
        rw [Nat.log2_lt hzero, ← hn]
        exact x.toNat_lt
      have hbit : (UInt32.ofNat (2 ^ n.log2)).toNat = 2 ^ n.log2 :=
        UInt32.toNat_ofNat_of_lt' (Nat.pow_lt_pow_right (by norm_num) hlog)
      have hrest : (x ^^^ UInt32.ofNat (2 ^ n.log2)).toNat = n ^^^ 2 ^ n.log2 := by
        rw [UInt32.toNat_xor, hbit, hn]
      have hsplit : x = (x ^^^ UInt32.ofNat (2 ^ n.log2)) ^^^ UInt32.ofNat (2 ^ n.log2) := by
        rw [UInt32.xor_assoc, UInt32.xor_self, UInt32.xor_zero]
      rw [hsplit, hf, hg, ih _ (xor_log2_lt hzero) _ hrest, h _ hlog]

end Additive

/-! ### Polynomials in an additive map -/

/-- The sum of `f^[i] x` over the set bits `i < fuel` of `mask`. -/
def polynomial (f : UInt32 → UInt32) : ℕ → ℕ → UInt32 → UInt32
  | 0, _, _ => 0
  | fuel + 1, mask, x => (if mask % 2 = 1 then x else 0) ^^^ polynomial f fuel (mask / 2) (f x)

variable {f g : UInt32 → UInt32}

theorem polynomial_additive (hf : Additive f) (fuel mask : ℕ) : Additive (polynomial f fuel mask) := by
  induction fuel generalizing mask with
  | zero => exact .const_zero
  | succ fuel ih =>
    have hhead : Additive fun x => if mask % 2 = 1 then x else 0 := by
      split
      · exact .id
      · exact .const_zero
    exact hhead.xor ((ih (mask / 2)).comp hf)

theorem polynomial_apply (hf : Additive f) (fuel mask : ℕ) (x : UInt32) :
    polynomial f fuel mask (f x) = f (polynomial f fuel mask x) := by
  induction fuel generalizing mask x with
  | zero => exact hf.map_zero.symm
  | succ fuel ih =>
    rw [polynomial, polynomial, hf, ih]
    split
    · rfl
    · rw [hf.map_zero]

/-! ### Cycles of a perturbed map -/

/-- The sums of `v`, `f v`, up to `f^[n - 1] v`. -/
def sums (f : UInt32 → UInt32) (v : UInt32) : ℕ → List UInt32
  | 0 => [0]
  | n + 1 => (sums f (f v) n).flatMap fun e => [e, e ^^^ v]

theorem mem_sums_succ {v e : UInt32} {n : ℕ} (h : e ∈ sums f (f v) n) : e ∈ sums f v (n + 1) ∧ e ^^^ v ∈ sums f v (n + 1) := by
  rw [sums]
  exact ⟨List.mem_flatMap.mpr ⟨e, h, by simp⟩, List.mem_flatMap.mpr ⟨e, h, by simp⟩⟩

theorem map_mem_sums {q : UInt32 → UInt32} (hq : Additive q) (hcomm : ∀ x, q (f x) = f (q x)) {v e : UInt32} {n : ℕ}
    (h : e ∈ sums f v n) : q e ∈ sums f (q v) n := by
  induction n generalizing v e with
  | zero =>
    rw [sums, List.mem_singleton] at h ⊢
    rw [h, hq.map_zero]
  | succ n ih =>
    obtain ⟨d, hd, he⟩ := List.mem_flatMap.mp h
    have hlower := hcomm v ▸ ih hd
    simp only [List.mem_cons, List.not_mem_nil, or_false] at he
    rcases he with rfl | rfl
    · exact (mem_sums_succ hlower).1
    · rw [hq]
      exact (mem_sums_succ hlower).2

/-- A map that is `f`, or `f` and the constant `c`, after `n` steps. -/
theorem iterate_perturbed (hf : Additive f) {c : UInt32} (hg : ∀ x, g x = f x ∨ g x = f x ^^^ c) (n : ℕ) (x : UInt32) :
    ∃ e ∈ sums f c n, g^[n] x = f^[n] x ^^^ e := by
  induction n with
  | zero => exact ⟨0, by simp [sums], by simp⟩
  | succ n ih =>
    obtain ⟨e, he, hn⟩ := ih
    have hmoved := mem_sums_succ (map_mem_sums hf (fun _ => rfl) he)
    rw [Function.iterate_succ_apply', Function.iterate_succ_apply', hn]
    rcases hg (f^[n] x ^^^ e) with h | h
    · exact ⟨f e, hmoved.1, by rw [h, hf]⟩
    · exact ⟨f e ^^^ c, hmoved.2, by rw [h, hf, UInt32.xor_assoc]⟩

/-- The words on a cycle of length `n`, from an inverse of `f^[n]` plus the
identity. -/
theorem mem_sums_of_cycle (hf : Additive f) {c : UInt32} (hg : ∀ x, g x = f x ∨ g x = f x ^^^ c) {n : ℕ}
    {q : UInt32 → UInt32} (hq : Additive q) (hcomm : ∀ x, q (f x) = f (q x))
    (hinverse : ∀ x, q (f^[n] x ^^^ x) = x) {x : UInt32} (h : g^[n] x = x) : x ∈ sums f (q c) n := by
  obtain ⟨e, he, hn⟩ := iterate_perturbed hf hg n x
  have hsum : f^[n] x ^^^ x = e := xor_eq_iff.mp (hn.symm.trans h)
  have hx := map_mem_sums hq hcomm he
  rwa [← hsum, hinverse] at hx

end Kmsrs.WordXor
