import Kmsrs.Lib.ByteXor

/-! The byte field of the block cipher: doubling, multiplication by shift and
add, the inverse found by search, and the substitution box built from it. The
search is never run in a proof: multiplication is bilinear, so its laws are
checked on single bits, and an inverse is checked by one product. -/

namespace Kmsrs.Crypto

open ByteXor

/-- Multiply by `x` modulo `x^8 + x^4 + x^3 + x + 1`. -/
def xtime (byte : UInt8) : UInt8 :=
  let doubled := byte <<< 1
  if byte &&& 0x80 = 0 then doubled else doubled ^^^ 0x1B

/-- The `while b != 0` loop of `gf_mul`; eight rounds shift `b` out. -/
def gfMulLoop : ℕ → UInt8 → UInt8 → UInt8 → UInt8
  | 0, product, _, _ => product
  | fuel + 1, product, a, b =>
    if b = 0 then product
    else gfMulLoop fuel (if b &&& 1 ≠ 0 then product ^^^ a else product) (xtime a) (b >>> 1)

def gfMul (a b : UInt8) : UInt8 := gfMulLoop 8 0 a b

/-- The multiplicative inverse by search over `1..=255`, with zero mapped to
zero. -/
def gfInverse (value : UInt8) : UInt8 :=
  if value = 0 then 0
  else (((List.range' 1 255).map UInt8.ofNat).find? fun candidate => gfMul value candidate == 1).getD 0

/-! ### Multiplication is bilinear -/

theorem xtime_eq (byte : UInt8) :
    xtime byte = (byte <<< 1) ^^^ (if byte &&& 0x80 = 0 then 0 else 0x1B) := by
  unfold xtime
  split <;> simp

theorem and_high_bit (byte : UInt8) : byte &&& 0x80 = 0 ∨ byte &&& 0x80 = 0x80 := Additive.and_single byte 0x80 (by decide)

theorem xtime_additive : Additive xtime := by
  intro a b
  simp only [xtime_eq, UInt8.shiftLeft_xor, xor_and]
  rcases and_high_bit a with ha | ha <;> rcases and_high_bit b with hb | hb <;>
    simp [ha, hb, UInt8.xor_assoc, UInt8.xor_comm, xor_left_comm]

theorem gfMulLoop_zero_right (fuel : ℕ) (product a : UInt8) : gfMulLoop fuel product a 0 = product := by
  cases fuel <;> simp [gfMulLoop]

/-- The accumulator is only ever added to. -/
theorem gfMulLoop_eq_xor (fuel : ℕ) (product a b : UInt8) :
    gfMulLoop fuel product a b = product ^^^ gfMulLoop fuel 0 a b := by
  induction fuel generalizing product a b with
  | zero => simp [gfMulLoop]
  | succ fuel ih =>
    by_cases hb : b = 0
    · simp [gfMulLoop, hb]
    · simp only [gfMulLoop, if_neg hb]
      rw [ih, ih (if b &&& 1 ≠ 0 then 0 ^^^ a else 0)]
      split <;> simp [UInt8.xor_assoc]

/-- One round, whether or not the loop would have stopped there. -/
theorem gfMulLoop_succ (fuel : ℕ) (a b : UInt8) :
    gfMulLoop (fuel + 1) 0 a b =
      (if b &&& 1 = 0 then 0 else a) ^^^ gfMulLoop fuel 0 (xtime a) (b >>> 1) := by
  by_cases hb : b = 0
  · subst hb
    simp [gfMulLoop, gfMulLoop_zero_right]
  · simp only [gfMulLoop, if_neg hb]
    rw [gfMulLoop_eq_xor]
    by_cases h1 : b &&& 1 = 0 <;> simp [h1]

theorem gfMulLoop_additive_left (fuel : ℕ) (b : UInt8) : Additive fun a => gfMulLoop fuel 0 a b := by
  induction fuel generalizing b with
  | zero => intro x y; simp [gfMulLoop]
  | succ fuel ih =>
    intro x y
    have hrest := ih (b >>> 1) (xtime x) (xtime y)
    simp only [gfMulLoop_succ, xtime_additive x y] at hrest ⊢
    rw [hrest]
    by_cases h1 : b &&& 1 = 0 <;> simp [h1, UInt8.xor_assoc, xor_left_comm]

theorem and_one (byte : UInt8) : byte &&& 1 = 0 ∨ byte &&& 1 = 1 := Additive.and_single byte 1 (by decide)

theorem gfMulLoop_additive_right (fuel : ℕ) (a : UInt8) : Additive fun b => gfMulLoop fuel 0 a b := by
  induction fuel generalizing a with
  | zero => intro x y; simp [gfMulLoop]
  | succ fuel ih =>
    intro x y
    have hrest := ih (xtime a) (x >>> 1) (y >>> 1)
    simp only [gfMulLoop_succ, UInt8.shiftRight_xor, xor_and] at hrest ⊢
    rw [hrest]
    rcases and_one x with hx | hx <;> rcases and_one y with hy | hy <;>
      simp [hx, hy, UInt8.xor_assoc, xor_left_comm]

theorem gfMul_xor_left (x y b : UInt8) : gfMul (x ^^^ y) b = gfMul x b ^^^ gfMul y b :=
  gfMulLoop_additive_left 8 b x y

theorem gfMul_xor_right (a x y : UInt8) : gfMul a (x ^^^ y) = gfMul a x ^^^ gfMul a y :=
  gfMulLoop_additive_right 8 a x y

theorem gfMul_additive_left (b : UInt8) : Additive (gfMul · b) := fun x y => gfMul_xor_left x y b

theorem gfMul_additive_right (a : UInt8) : Additive (gfMul a) := gfMul_xor_right a

/-! ### Field laws, from the single bits -/

/-- The inverses, listed so that each is checked by one product. -/
private def inverses : List UInt8 := [
  0x00, 0x01, 0x8d, 0xf6, 0xcb, 0x52, 0x7b, 0xd1, 0xe8, 0x4f, 0x29, 0xc0, 0xb0, 0xe1, 0xe5, 0xc7,
  0x74, 0xb4, 0xaa, 0x4b, 0x99, 0x2b, 0x60, 0x5f, 0x58, 0x3f, 0xfd, 0xcc, 0xff, 0x40, 0xee, 0xb2,
  0x3a, 0x6e, 0x5a, 0xf1, 0x55, 0x4d, 0xa8, 0xc9, 0xc1, 0x0a, 0x98, 0x15, 0x30, 0x44, 0xa2, 0xc2,
  0x2c, 0x45, 0x92, 0x6c, 0xf3, 0x39, 0x66, 0x42, 0xf2, 0x35, 0x20, 0x6f, 0x77, 0xbb, 0x59, 0x19,
  0x1d, 0xfe, 0x37, 0x67, 0x2d, 0x31, 0xf5, 0x69, 0xa7, 0x64, 0xab, 0x13, 0x54, 0x25, 0xe9, 0x09,
  0xed, 0x5c, 0x05, 0xca, 0x4c, 0x24, 0x87, 0xbf, 0x18, 0x3e, 0x22, 0xf0, 0x51, 0xec, 0x61, 0x17,
  0x16, 0x5e, 0xaf, 0xd3, 0x49, 0xa6, 0x36, 0x43, 0xf4, 0x47, 0x91, 0xdf, 0x33, 0x93, 0x21, 0x3b,
  0x79, 0xb7, 0x97, 0x85, 0x10, 0xb5, 0xba, 0x3c, 0xb6, 0x70, 0xd0, 0x06, 0xa1, 0xfa, 0x81, 0x82,
  0x83, 0x7e, 0x7f, 0x80, 0x96, 0x73, 0xbe, 0x56, 0x9b, 0x9e, 0x95, 0xd9, 0xf7, 0x02, 0xb9, 0xa4,
  0xde, 0x6a, 0x32, 0x6d, 0xd8, 0x8a, 0x84, 0x72, 0x2a, 0x14, 0x9f, 0x88, 0xf9, 0xdc, 0x89, 0x9a,
  0xfb, 0x7c, 0x2e, 0xc3, 0x8f, 0xb8, 0x65, 0x48, 0x26, 0xc8, 0x12, 0x4a, 0xce, 0xe7, 0xd2, 0x62,
  0x0c, 0xe0, 0x1f, 0xef, 0x11, 0x75, 0x78, 0x71, 0xa5, 0x8e, 0x76, 0x3d, 0xbd, 0xbc, 0x86, 0x57,
  0x0b, 0x28, 0x2f, 0xa3, 0xda, 0xd4, 0xe4, 0x0f, 0xa9, 0x27, 0x53, 0x04, 0x1b, 0xfc, 0xac, 0xe6,
  0x7a, 0x07, 0xae, 0x63, 0xc5, 0xdb, 0xe2, 0xea, 0x94, 0x8b, 0xc4, 0xd5, 0x9d, 0xf8, 0x90, 0x6b,
  0xb1, 0x0d, 0xd6, 0xeb, 0xc6, 0x0e, 0xcf, 0xad, 0x08, 0x4e, 0xd7, 0xe3, 0x5d, 0x50, 0x1e, 0xb3,
  0x5b, 0x23, 0x38, 0x34, 0x68, 0x46, 0x03, 0x8c, 0xdd, 0x9c, 0x7d, 0xa0, 0xcd, 0x1a, 0x41, 0x1c]

/-- What is found by evaluation: the laws on the single bits, and the inverses. -/
private theorem evaluated :
    (∀ m ∈ singles, ∀ n ∈ singles, gfMul m n = gfMul n m) ∧
      (∀ l ∈ singles, ∀ m ∈ singles, ∀ n ∈ singles, gfMul (gfMul l m) n = gfMul l (gfMul m n)) ∧
      (∀ m ∈ singles, gfMul m 1 = m) ∧
      ∀ i : Fin 256, i = 0 ∨ (inverses.getD i 0 ≠ 0 ∧ gfMul (UInt8.ofNat i) (inverses.getD i 0) = 1) := by
  decide +kernel

theorem gfMul_comm (a b : UInt8) : gfMul a b = gfMul b a := by
  refine (gfMul_additive_left b).ext (gfMul_additive_right b) (fun m hm => ?_) a
  refine (gfMul_additive_right m).ext (gfMul_additive_left m) (fun n hn => ?_) b
  exact evaluated.1 m hm n hn

theorem gfMul_assoc (a b c : UInt8) : gfMul (gfMul a b) c = gfMul a (gfMul b c) := by
  refine ((gfMul_additive_left c).comp (gfMul_additive_left b)).ext
    (gfMul_additive_left (gfMul b c)) (fun l hl => ?_) a
  refine ((gfMul_additive_left c).comp (gfMul_additive_right l)).ext
    ((gfMul_additive_right l).comp (gfMul_additive_left c)) (fun m hm => ?_) b
  refine (gfMul_additive_right (gfMul l m)).ext
    ((gfMul_additive_right l).comp (gfMul_additive_right m)) (fun n hn => ?_) c
  exact evaluated.2.1 l hl m hm n hn

theorem gfMul_one (a : UInt8) : gfMul a 1 = a := by
  refine (gfMul_additive_left 1).ext Additive.id (fun m hm => ?_) a
  exact evaluated.2.2.1 m hm

theorem exists_inverse {value : UInt8} (h : value ≠ 0) : ∃ c, c ≠ 0 ∧ gfMul value c = 1 := by
  rcases evaluated.2.2.2 ⟨value.toNat, value.toNat_lt⟩ with h0 | h1
  · refine absurd ?_ h
    exact UInt8.toNat_inj.mp (Fin.val_eq_of_eq h0)
  · simp only [UInt8.ofNat_toNat] at h1
    exact ⟨_, h1⟩

theorem mem_candidates {c : UInt8} (h : c ≠ 0) : c ∈ (List.range' 1 255).map UInt8.ofNat := by
  refine List.mem_map.mpr ⟨c.toNat, ?_, UInt8.ofNat_toNat⟩
  have h0 : c.toNat ≠ 0 := fun h0 => h (UInt8.toNat_inj.mp h0)
  have hlt := c.toNat_lt
  simp only [List.mem_range']
  exact ⟨c.toNat - 1, by omega, by omega⟩

/-- The search finds an inverse whenever there is one to find. -/
theorem gfMul_gfInverse {value : UInt8} (h : value ≠ 0) : gfMul value (gfInverse value) = 1 := by
  obtain ⟨c, hc, hmul⟩ := exists_inverse h
  rw [gfInverse, if_neg h]
  cases hfind : ((List.range' 1 255).map UInt8.ofNat).find? fun c => gfMul value c == 1 with
  | none =>
    have hno := List.find?_eq_none.mp hfind c (mem_candidates hc)
    simp [hmul] at hno
  | some d => simpa using List.find?_some hfind

theorem gfInverse_zero : gfInverse 0 = 0 := rfl

theorem gfInverse_ne_zero {value : UInt8} (h : value ≠ 0) : gfInverse value ≠ 0 := by
  intro h0
  have hmul := gfMul_gfInverse h
  rw [h0, (gfMul_additive_right value).map_zero] at hmul
  exact absurd hmul (by decide)

theorem gfInverse_injective {a b : UInt8} (h : gfInverse a = gfInverse b) : a = b := by
  by_cases ha : a = 0
  · by_contra hb
    exact gfInverse_ne_zero (fun h0 => hb (ha.trans h0.symm)) (by rw [← h, ha, gfInverse_zero])
  · by_cases hb : b = 0
    · exact absurd (by rw [h, hb, gfInverse_zero]) (gfInverse_ne_zero ha)
    · have hab : gfMul a (gfInverse b) = 1 := h ▸ gfMul_gfInverse ha
      calc a = gfMul a (gfMul b (gfInverse b)) := by rw [gfMul_gfInverse hb, gfMul_one]
        _ = gfMul (gfMul a (gfInverse b)) b := by rw [gfMul_comm b, gfMul_assoc]
        _ = b := by rw [hab, gfMul_comm, gfMul_one]

end Kmsrs.Crypto
