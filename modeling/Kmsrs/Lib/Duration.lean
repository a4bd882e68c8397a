import Kmsrs.Lib.Rows

/-! Spans of time as nanoseconds with a largest value, at which addition and
multiplication stop instead of failing; and fractions of a second, or of any unit, in
another denominator and back, both times rounded down. -/

namespace Kmsrs.Duration

def fromSecs (seconds : ℕ) : ℕ := 10 ^ 9 * seconds

def fromMillis (milliseconds : ℕ) : ℕ := 10 ^ 6 * milliseconds

/-- `Duration::MAX`: the largest number of seconds in 64 bits, and one
nanosecond less than another second. -/
def longest : ℕ := fromSecs (2 ^ 64 - 1) + (10 ^ 9 - 1)

def asSecs (d : ℕ) : ℕ := d / 10 ^ 9

def saturatingAdd (a b : ℕ) : ℕ := min (a + b) longest

def saturatingMul (a n : ℕ) : ℕ := min (a * n) longest

theorem asSecs_fromSecs (seconds : ℕ) : asSecs (fromSecs seconds) = seconds := by
  rw [asSecs, fromSecs, Nat.mul_div_cancel_left _ (by norm_num)]

theorem fromSecs_mono {a b : ℕ} (h : a ≤ b) : fromSecs a ≤ fromSecs b := Nat.mul_le_mul_left _ h

theorem saturatingAdd_le_longest (a b : ℕ) : saturatingAdd a b ≤ longest := min_le_right _ _

theorem saturatingAdd_le_iff {a b e : ℕ} (he : e ≤ longest) :
    saturatingAdd a b ≤ e ↔ a + b ≤ e ∨ e = longest := by
  unfold saturatingAdd
  omega

theorem saturatingAdd_mono {a b b' : ℕ} (h : b ≤ b') : saturatingAdd a b ≤ saturatingAdd a b' := by
  unfold saturatingAdd
  omega

theorem le_saturatingAdd {a : ℕ} (ha : a ≤ longest) (b : ℕ) : a ≤ saturatingAdd a b := by
  unfold saturatingAdd
  omega

end Kmsrs.Duration

namespace Kmsrs.FixedPoint

/-- `r` parts of which `n` make a unit, in parts of which `b` do. -/
def rescale (r n b : ℕ) : ℕ := r * b / n

theorem rescale_lt {r n b : ℕ} (hb : 0 < b) (hr : r < n) : rescale r n b < b := by
  rw [rescale, Nat.div_lt_iff_lt_mul (Nat.zero_lt_of_lt hr), Nat.mul_comm b]
  exact Nat.mul_lt_mul_of_pos_right hr hb

theorem rescale_mono {r r' n b : ℕ} (h : r ≤ r') : rescale r n b ≤ rescale r' n b :=
  Nat.div_le_div_right (Nat.mul_le_mul_right b h)

theorem rescale_rescale_le {r n b : ℕ} : rescale (rescale r n b) b n ≤ r := by
  rcases Nat.eq_zero_or_pos b with rfl | hb
  · simp [rescale]
  · exact Nat.div_le_of_le_mul ((Nat.div_mul_le_self _ _).trans (Nat.mul_comm r b).le)

/-- Through a finer denominator at most one part is lost. -/
theorem le_rescale_rescale {r n b : ℕ} (hn : 0 < n) (h : n ≤ b) : r ≤ rescale (rescale r n b) b n + 1 := by
  have hb : 0 < b := hn.trans_le h
  have hfine : r * b < (rescale r n b + 1) * n := Nat.lt_mul_of_div_lt (Nat.lt_succ_self _) hn
  have hcoarse : rescale r n b * n < (rescale (rescale r n b) b n + 1) * b :=
    Nat.lt_mul_of_div_lt (Nat.lt_succ_self _) hb
  have hsum : r * b < (rescale (rescale r n b) b n + 2) * b := by
    calc r * b < rescale r n b * n + n := by rwa [add_one_mul] at hfine
      _ < (rescale (rescale r n b) b n + 1) * b + b := by omega
      _ = (rescale (rescale r n b) b n + 2) * b := by ring
  exact Nat.lt_succ_iff.mp (Nat.lt_of_mul_lt_mul_right hsum)

end Kmsrs.FixedPoint
