import Kmsrs.Os.Sntp

/-! NTP timestamps over the whole window that the era rule covers, from 1968 to
2104. From the epoch on a time loses at most a nanosecond; before it the
fraction of a second is dropped after the division has already rounded up. The
order of times survives both, and the change of era. -/

namespace Kmsrs.Os.Sntp

/-- From 1968-01-20T03:14:08Z, when the high bit of the seconds is first set, for
`2 ^ 32` seconds. -/
def InEraWindow (t : ℤ) : Prop := (2 ^ 31 - 2208988800) * 10 ^ 9 ≤ t ∧ t < (2 ^ 31 + 2 ^ 32 - 2208988800) * 10 ^ 9

instance (t : ℤ) : Decidable (InEraWindow t) := inferInstanceAs (Decidable (_ ∧ _))

/-- Read back within a nanosecond below. -/
def ReadsBack (t : ℤ) : Prop := t - 1 ≤ unixNanos (ntpTimestamp t) ∧ unixNanos (ntpTimestamp t) ≤ t

/-- Before the epoch a time is read back as the second after it. -/
theorem unixNanos_ntpTimestamp_neg {n : ℕ} (h : InEraWindow (-n)) :
    unixNanos (ntpTimestamp (-n)) = -((n / 10 ^ 9 * 10 ^ 9 : ℕ) : ℤ) := by
  have hstart : n / 10 ^ 9 ≤ 61505152 := by
    have := h.1
    omega
  have hseconds : ((-(n : ℤ)).tdiv nanos + ntpToUnix).tmod era = ((2208988800 - n / 10 ^ 9 : ℕ) : ℤ) := by
    rw [Int.neg_tdiv, nanos, ntpToUnix, era, Int.tdiv_eq_ediv_of_nonneg (by omega), Int.tmod_eq_emod_of_nonneg (by omega)]
    omega
  have hnone : max 0 (min ((-(n : ℤ)).tmod nanos) nanos) = 0 := by
    rw [Int.neg_tmod, nanos, Int.tmod_eq_emod_of_nonneg (by omega)]
    omega
  have hfraction : (max 0 (min ((-(n : ℤ)).tmod nanos) nanos) * era).tdiv nanos = ((0 : ℕ) : ℤ) := by
    rw [hnone, Int.zero_mul, Int.zero_tdiv]
    rfl
  have htimestamp := ntpTimestamp_of_fields (by omega) (by norm_num) hseconds hfraction
  rw [unixNanos_of_fields (by omega) (by norm_num) htimestamp, if_neg (by omega), FixedPoint.rescale, Nat.zero_mul,
    Nat.zero_div]
  push_cast
  omega

/-- A time of the window is one before the epoch or one from it on. -/
theorem eq_neg_or_eq (t : ℤ) : (∃ n : ℕ, 0 < n ∧ t = -n) ∨ ∃ n : ℕ, t = n := by
  rcases lt_or_ge t 0 with hneg | hpos
  · exact .inl ⟨(-t).toNat, by omega, by omega⟩
  · exact .inr ⟨t.toNat, by omega⟩

theorem InEraWindow.inWindow {n : ℕ} (h : InEraWindow n) : InWindow n := ⟨Int.natCast_nonneg n, h.2⟩

theorem readsBack_iff_whole {t : ℤ} (h : InEraWindow t) : ReadsBack t ↔ 0 ≤ t ∨ 10 ^ 9 ∣ t := by
  rcases eq_neg_or_eq t with ⟨n, hn, rfl⟩ | ⟨n, rfl⟩
  · rw [ReadsBack, unixNanos_ntpTimestamp_neg h]
    omega
  · have hback := unixNanos_ntpTimestamp h.inWindow
    rw [ReadsBack]
    omega

theorem unixNanos_ntpTimestamp_mono {t u : ℤ} (ht : InEraWindow t) (hu : InEraWindow u) (h : t ≤ u) :
    unixNanos (ntpTimestamp t) ≤ unixNanos (ntpTimestamp u) := by
  rcases eq_neg_or_eq t with ⟨m, hm, rfl⟩ | ⟨m, rfl⟩
  · rw [unixNanos_ntpTimestamp_neg ht]
    rcases eq_neg_or_eq u with ⟨n, hn, rfl⟩ | ⟨n, rfl⟩
    · rw [unixNanos_ntpTimestamp_neg hu]
      omega
    · rw [unixNanos_ntpTimestamp_eq hu.inWindow]
      omega
  · obtain ⟨n, rfl⟩ := Int.eq_ofNat_of_zero_le ((Int.natCast_nonneg m).trans h)
    rw [unixNanos_ntpTimestamp_eq ht.inWindow, unixNanos_ntpTimestamp_eq hu.inWindow]
    have hkept := kept_le (m % 10 ^ 9)
    rcases Nat.lt_or_ge (m / 10 ^ 9) (n / 10 ^ 9) with hlater | hsame
    · omega
    · have hrest : kept (m % 10 ^ 9) ≤ kept (n % 10 ^ 9) := kept_mono (by omega)
      omega

/-- In the window a time is read back within a nanosecond below just when it is
not before the epoch or is a whole second, and order is kept throughout. -/
theorem reads_back_iff_and_mono {t : ℤ} (h : InEraWindow t) :
    (ReadsBack t ↔ 0 ≤ t ∨ 10 ^ 9 ∣ t) ∧
      ∀ u, InEraWindow u → t ≤ u → unixNanos (ntpTimestamp t) ≤ unixNanos (ntpTimestamp u) :=
  ⟨readsBack_iff_whole h, fun _ hu => unixNanos_ntpTimestamp_mono h hu⟩

/-- The first nanosecond of era 1 is read back, and not before the last of era 0. -/
theorem reads_back_at_era_change :
    ReadsBack (2085978496 * 10 ^ 9) ∧
      unixNanos (ntpTimestamp (2085978496 * 10 ^ 9 - 1)) ≤ unixNanos (ntpTimestamp (2085978496 * 10 ^ 9)) :=
  ⟨(reads_back_iff_and_mono (by decide)).1.mpr (.inl (by norm_num)),
    (reads_back_iff_and_mono (by decide)).2 _ (by decide) (by omega)⟩

/-- The nanosecond before the epoch is read back as the epoch. -/
theorem nanosecond_before_epoch :
    InEraWindow (-1) ∧ unixNanos (ntpTimestamp (-1)) = 0 ∧ ¬ ReadsBack (-1) := by
  have hback : unixNanos (ntpTimestamp (-1)) = 0 := by decide
  refine ⟨by decide, hback, ?_⟩
  rw [ReadsBack, hback]
  decide

end Kmsrs.Os.Sntp
