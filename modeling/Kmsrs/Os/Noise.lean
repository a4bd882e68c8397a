import Kmsrs.Lib.WordXor
import Kmsrs.Os.Lease

/-! The client's generator. Its steps are an invertible shift-register map with
the lowest bit then set, and setting the bit costs it invertibility: one word is
its own successor. A client draws at most eleven words from one transaction to
the next, and no other word comes back as soon as that. -/

namespace Kmsrs.Os

open WordXor

/-- One draw. -/
def draw (noise : UInt32) : UInt32 := xorshift noise ||| 1

/-- The word that is its own successor. -/
def stuckNoise : UInt32 := 2456421193

theorem draw_stuckNoise : draw stuckNoise = stuckNoise := by decide +kernel

theorem draw_odd (noise : UInt32) : draw noise &&& 1 = 1 := by
  rw [draw, UInt32.and_comm, UInt32.or_comm]
  apply UInt32.toBitVec_inj.mp
  ext i hi
  cases i <;> simp

theorem xorshift_additive : Additive xorshift := by
  have hfirst := Additive.id.xor (.shiftLeft 13)
  have hsecond := hfirst.xor ((Additive.shiftRight 17).comp hfirst)
  exact hsecond.xor ((Additive.shiftLeft 5).comp hsecond)

/-- For a length up to eleven, the polynomial that inverts so many steps plus
the identity, as a mask of coefficients, and its value at one. -/
def inverses : List (ℕ × ℕ × UInt32) := [
  (1, 0xffea41c0, 0x926a0349),
  (2, 0xaab3817f, 0x477bc14e),
  (3, 0x9255da6d, 0x8b08eb1e),
  (4, 0xddcfc18c, 0x9ccbaf0b),
  (5, 0xd6a60dfb, 0xe72be432),
  (6, 0xefa8a67a, 0x056eda4e),
  (7, 0xc98223e5, 0xd0a24666),
  (8, 0x5855ff59, 0x26ba6cf3),
  (9, 0xdefd2cfc, 0x2c52ce06),
  (10, 0x0ec2d0fa, 0x1ab4aef8),
  (11, 0x7fa526bc, 0x01f24bca)]

theorem lengths_spec : ∀ n ∈ List.range' 1 11, n ∈ inverses.map Prod.fst := by decide

/-- Each polynomial is an inverse: it is one on the single bits. -/
theorem inverses_spec : ∀ entry ∈ inverses, polynomial xorshift 32 entry.2.1 1 = entry.2.2 ∧
    ∀ i < 32, polynomial xorshift 32 entry.2.1 (xorshift^[entry.1] (.ofNat (2 ^ i)) ^^^ .ofNat (2 ^ i)) =
      .ofNat (2 ^ i) := by
  decide +kernel

/-- Of the words that so many steps could bring back, only one does come back. -/
theorem cycles_spec : ∀ entry ∈ inverses, ∀ noise ∈ sums xorshift entry.2.2 entry.1,
    noise &&& 1 = 1 → draw^[entry.1] noise = noise → noise = stuckNoise := by
  decide +kernel

/-- No odd word but one comes back after up to eleven draws. -/
theorem eq_stuckNoise_of_cycle {n : ℕ} (hpos : 0 < n) (hle : n ≤ 11) {noise : UInt32} (hodd : noise &&& 1 = 1)
    (h : draw^[n] noise = noise) : noise = stuckNoise := by
  obtain ⟨mask, one, hmem⟩ : ∃ mask one, (n, mask, one) ∈ inverses := by
    have hfound := lengths_spec n (List.mem_range'_1.mpr ⟨hpos, by omega⟩)
    obtain ⟨entry, hentry, rfl⟩ := List.mem_map.mp hfound
    exact ⟨entry.2.1, entry.2.2, hentry⟩
  obtain ⟨hone, hsingles⟩ := inverses_spec _ hmem
  have hpoly := polynomial_additive xorshift_additive 32 mask
  have hinverse := (hpoly.comp ((xorshift_additive.iterate n).xor .id)).ext .id hsingles
  have hsums := mem_sums_of_cycle xorshift_additive (fun x => or_one (xorshift x)) hpoly
    (polynomial_apply xorshift_additive 32 mask) hinverse h
  rw [hone] at hsums
  exact cycles_spec _ hmem _ hsums hodd h

end Kmsrs.Os
