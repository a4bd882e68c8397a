import Kmsrs.Lib.Rows

/-! Maps of bytes that respect exclusive or. A byte is the exclusive or of its
eight single bits, so two such maps agree as soon as they agree on those. -/

namespace Kmsrs.ByteXor

/-- A decidable fact about every byte, from the 256 numbers that name them. -/
theorem forall_of_fin {P : UInt8 → Prop} (h : ∀ i : Fin 256, P (UInt8.ofNat i)) (x : UInt8) : P x := by
  have hx := h ⟨x.toNat, x.toNat_lt⟩
  rwa [UInt8.ofNat_toNat] at hx

theorem xor_left_comm (a b c : UInt8) : a ^^^ (b ^^^ c) = b ^^^ (a ^^^ c) := by
  rw [← UInt8.xor_assoc, UInt8.xor_comm a b, UInt8.xor_assoc]

@[simp] theorem xor_cancel_left (a b : UInt8) : a ^^^ (a ^^^ b) = b := by
  rw [← UInt8.xor_assoc, UInt8.xor_self, UInt8.zero_xor]

@[simp] theorem xor_cancel_right (a b : UInt8) : a ^^^ b ^^^ b = a := by
  rw [UInt8.xor_assoc, UInt8.xor_self, UInt8.xor_zero]

theorem xor_and (a b c : UInt8) : (a ^^^ b) &&& c = (a &&& c) ^^^ (b &&& c) := by
  apply UInt8.toBitVec_inj.mp
  simp only [UInt8.toBitVec_and, UInt8.toBitVec_xor]
  ext i hi
  simp only [BitVec.getElem_and, BitVec.getElem_xor]
  cases a.toBitVec[i] <;> cases b.toBitVec[i] <;> simp

/-- The eight bytes with one bit set. -/
def singles : List UInt8 := [1, 2, 4, 8, 16, 32, 64, 128]

/-- Respecting exclusive or. -/
def Additive (f : UInt8 → UInt8) : Prop := ∀ x y, f (x ^^^ y) = f x ^^^ f y

namespace Additive

variable {f g : UInt8 → UInt8}

theorem map_zero (hf : Additive f) : f 0 = 0 := by
  have h := hf 0 0
  rw [UInt8.xor_self] at h
  exact h.trans UInt8.xor_self

theorem id : Additive fun x => x := fun _ _ => rfl

theorem comp (hf : Additive f) (hg : Additive g) : Additive fun x => f (g x) :=
  fun x y => (congrArg f (hg x y)).trans (hf _ _)

theorem xor (hf : Additive f) (hg : Additive g) : Additive fun x => f x ^^^ g x := by
  intro x y
  simp only [hf x y, hg x y, UInt8.xor_assoc]
  rw [xor_left_comm (f y)]

/-- A byte is made of its single bits. -/
private theorem split_singles (x : UInt8) : (∀ m ∈ singles, x &&& m = 0 ∨ x &&& m = m) ∧
    x = (x &&& 1) ^^^ ((x &&& 2) ^^^ ((x &&& 4) ^^^ ((x &&& 8) ^^^
      ((x &&& 16) ^^^ ((x &&& 32) ^^^ ((x &&& 64) ^^^ (x &&& 128))))))) := by
  revert x
  exact forall_of_fin (by decide +kernel)

theorem and_single (x : UInt8) : ∀ m ∈ singles, x &&& m = 0 ∨ x &&& m = m := (split_singles x).1

/-- Agreement on the single bits is agreement everywhere. -/
theorem ext (hf : Additive f) (hg : Additive g) (h : ∀ m ∈ singles, f m = g m) (x : UInt8) :
    f x = g x := by
  have hbit : ∀ m ∈ singles, f (x &&& m) = g (x &&& m) := by
    intro m hm
    rcases and_single x m hm with h0 | h1
    · rw [h0, hf.map_zero, hg.map_zero]
    · rw [h1, h m hm]
  rw [(split_singles x).2]
  simp only [hf _ _, hg _ _]
  simp only [singles, List.forall_mem_cons, List.not_mem_nil, false_imp_iff, implies_true,
    and_true] at hbit
  obtain ⟨h1, h2, h4, h8, h16, h32, h64, h128⟩ := hbit
  rw [h1, h2, h4, h8, h16, h32, h64, h128]

theorem const_zero : Additive fun _ => 0 := fun _ _ => by simp

end Additive

/-! ### Four-by-four arrays of additive maps -/

/-- An array whose entries are maps of bytes, applied like a matrix. -/
abbrev Grid := Fin 4 → Fin 4 → UInt8 → UInt8

namespace Grid

def apply (M : Grid) (a : Fin 4 → UInt8) (i : Fin 4) : UInt8 :=
  M i 0 (a 0) ^^^ M i 1 (a 1) ^^^ M i 2 (a 2) ^^^ M i 3 (a 3)

def mul (M N : Grid) : Grid := fun i k x =>
  M i 0 (N 0 k x) ^^^ M i 1 (N 1 k x) ^^^ M i 2 (N 2 k x) ^^^ M i 3 (N 3 k x)

def IsAdditive (M : Grid) : Prop := ∀ i k, Additive (M i k)

theorem IsAdditive.mul {M N : Grid} (hM : M.IsAdditive) (hN : N.IsAdditive) : (mul M N).IsAdditive :=
  fun i k => ((((hM i 0).comp (hN 0 k)).xor ((hM i 1).comp (hN 1 k))).xor
    ((hM i 2).comp (hN 2 k))).xor ((hM i 3).comp (hN 3 k))

/-- Sixteen terms summed by rows and by columns. -/
private theorem xor_interchange (p q r s : Fin 4 → UInt8) :
    (p 0 ^^^ p 1 ^^^ p 2 ^^^ p 3) ^^^ (q 0 ^^^ q 1 ^^^ q 2 ^^^ q 3) ^^^
        (r 0 ^^^ r 1 ^^^ r 2 ^^^ r 3) ^^^ (s 0 ^^^ s 1 ^^^ s 2 ^^^ s 3) =
      (p 0 ^^^ q 0 ^^^ r 0 ^^^ s 0) ^^^ (p 1 ^^^ q 1 ^^^ r 1 ^^^ s 1) ^^^
        (p 2 ^^^ q 2 ^^^ r 2 ^^^ s 2) ^^^ (p 3 ^^^ q 3 ^^^ r 3 ^^^ s 3) := by
  simp only [UInt8.xor_assoc, xor_left_comm, UInt8.xor_comm]

theorem apply_apply {M : Grid} (hM : M.IsAdditive) (N : Grid) (a : Fin 4 → UInt8) (i : Fin 4) :
    M.apply (N.apply a) i = (mul M N).apply a i := by
  simp only [apply, mul, hM _ _ _ _]
  exact xor_interchange (fun k => M i 0 (N 0 k (a k))) (fun k => M i 1 (N 1 k (a k)))
    (fun k => M i 2 (N 2 k (a k))) (fun k => M i 3 (N 3 k (a k)))

/-- The identity array, recognised on single bits. -/
theorem apply_eq_self {M : Grid} (hM : M.IsAdditive)
    (h : ∀ i k, ∀ m ∈ singles, M i k m = if i = k then m else 0) (a : Fin 4 → UInt8) (i : Fin 4) :
    M.apply a i = a i := by
  have hentry : ∀ k x, M i k x = if i = k then x else 0 := by
    intro k x
    by_cases hik : i = k
    · simp only [if_pos hik]
      exact (hM i k).ext Additive.id (fun m hm => by rw [h i k m hm, if_pos hik]) x
    · simp only [if_neg hik]
      exact (hM i k).ext Additive.const_zero (fun m hm => by rw [h i k m hm, if_neg hik]) x
  simp only [apply, hentry]
  fin_cases i <;> simp

end Grid

end Kmsrs.ByteXor
