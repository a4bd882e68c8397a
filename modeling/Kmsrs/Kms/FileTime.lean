import Kmsrs.Lib.Duration
import Mathlib.Order.Bounds.Basic

/-! Wall-clock readings in ticks of 100 nanoseconds since 1601, and their
conversions to and from Unix seconds. The division towards zero is one towards
1970: it rounds down from the epoch on and up before it. -/

namespace Kmsrs.Kms

def filetimeTicksPerSecond : UInt64 := 10000000
def nanosPerFiletimeTick : UInt64 := 100

/-- 1970-01-01T00:00:00Z. -/
def unixEpochAsFiletime : UInt64 := 116444736000000000

structure FileTime where
  ticks : UInt64
deriving DecidableEq

namespace FileTime

/-- A result that fits in 128 signed bits. -/
def checkedI128 (n : ℤ) : Option ℤ := if -2 ^ 127 ≤ n ∧ n < 2 ^ 127 then some n else none

def u64TryFrom (n : ℤ) : Option UInt64 := if 0 ≤ n ∧ n < 2 ^ 64 then some (.ofNat n.toNat) else none

def i64TryFrom (n : ℤ) : Option Int64 := if -2 ^ 63 ≤ n ∧ n < 2 ^ 63 then some (.ofInt n) else none

def fromUnixSeconds (seconds : Int64) : Option FileTime := do
  let ticks ← checkedI128 (seconds.toInt * filetimeTicksPerSecond.toNat)
  let ticks ← checkedI128 (ticks + unixEpochAsFiletime.toNat)
  (u64TryFrom ticks).map .mk

def toUnixSeconds (time : FileTime) : Option Int64 := do
  let ticks ← checkedI128 (time.ticks.toNat - unixEpochAsFiletime.toNat)
  let seconds ← checkedI128 (ticks.tdiv filetimeTicksPerSecond.toNat)
  i64TryFrom seconds

/-- The ticks of a span given in nanoseconds. -/
def durationToTicks (duration : ℕ) : Option UInt64 := u64TryFrom (duration / nanosPerFiletimeTick.toNat : ℕ)

def checkedAdd (time : FileTime) (duration : ℕ) : Option FileTime := do
  let ticks ← durationToTicks duration
  (u64TryFrom (time.ticks.toNat + ticks.toNat : ℕ)).map .mk

def checkedSub (time : FileTime) (duration : ℕ) : Option FileTime := do
  let ticks ← durationToTicks duration
  (u64TryFrom (time.ticks.toNat - ticks.toNat)).map .mk

/-- The span between two readings, in nanoseconds. -/
def absDifference (time other : FileTime) : ℕ :=
  let ticks := max time.ticks.toNat other.ticks.toNat - min time.ticks.toNat other.ticks.toNat
  let seconds := ticks / filetimeTicksPerSecond.toNat
  let remainder := ticks % filetimeTicksPerSecond.toNat
  let nanos := min (remainder * nanosPerFiletimeTick.toNat) (2 ^ 64 - 1)
  let subsecNanos := min (if nanos < 2 ^ 32 then nanos else 0) 999999999
  Duration.fromSecs seconds + subsecNanos

/-- Earlier or the same. -/
instance : LE FileTime := ⟨fun time other => time.ticks ≤ other.ticks⟩

instance (time other : FileTime) : Decidable (time ≤ other) := inferInstanceAs (Decidable (time.ticks ≤ other.ticks))

example : toUnixSeconds ⟨unixEpochAsFiletime⟩ = some 0 := by decide

/-! ### What the conversions give -/

theorem map_u64TryFrom_eq_some_iff {n : ℤ} {time : FileTime} :
    (u64TryFrom n).map mk = some time ↔ n = time.ticks.toNat := by
  have hlt := time.ticks.toNat_lt
  unfold u64TryFrom
  constructor
  · intro h
    split_ifs at h with hfits
    · rw [Option.map_some, Option.some.injEq] at h
      have hlt : n.toNat < UInt64.size := (Int.toNat_lt hfits.1).mpr hfits.2
      rw [← h, UInt64.toNat_ofNat_of_lt' hlt, Int.toNat_of_nonneg hfits.1]
    · cases h
  · rintro rfl
    have hfits : 0 ≤ (time.ticks.toNat : ℤ) ∧ (time.ticks.toNat : ℤ) < 2 ^ 64 := by omega
    rw [if_pos hfits, Option.map_some, Int.toNat_natCast, UInt64.ofNat_toNat]

theorem fromUnixSeconds_eq_some_iff {seconds : Int64} {time : FileTime} :
    fromUnixSeconds seconds = some time ↔
      seconds.toInt * 10000000 + 116444736000000000 = time.ticks.toNat := by
  have hle := seconds.le_toInt
  have hlt := seconds.toInt_lt
  have hmul : checkedI128 (seconds.toInt * filetimeTicksPerSecond.toNat) = some (seconds.toInt * 10000000) :=
    if_pos (by rw [show (filetimeTicksPerSecond.toNat : ℤ) = 10000000 from rfl]; omega)
  have hadd : checkedI128 (seconds.toInt * 10000000 + unixEpochAsFiletime.toNat) =
      some (seconds.toInt * 10000000 + 116444736000000000) :=
    if_pos (by rw [show (unixEpochAsFiletime.toNat : ℤ) = 116444736000000000 from rfl]; omega)
  simp only [fromUnixSeconds, hmul, hadd, Option.bind_eq_bind, Option.bind_some]
  exact map_u64TryFrom_eq_some_iff

/-- Towards 1970: down from the epoch on, up before it. -/
theorem tdiv_eq (n : ℤ) : n.tdiv 10000000 = if 0 ≤ n then n / 10000000 else -(-n / 10000000) := by
  split_ifs with h
  · exact Int.tdiv_eq_ediv_of_nonneg h
  · rw [← Int.tdiv_eq_ediv_of_nonneg (by omega), Int.neg_tdiv, neg_neg]

theorem toUnixSeconds_eq (time : FileTime) : ∃ seconds, toUnixSeconds time = some seconds ∧
    seconds.toInt = ((time.ticks.toNat : ℤ) - 116444736000000000).tdiv 10000000 := by
  have hlt := time.ticks.toNat_lt
  have hsub : checkedI128 (time.ticks.toNat - unixEpochAsFiletime.toNat) =
      some ((time.ticks.toNat : ℤ) - 116444736000000000) :=
    if_pos (by rw [show (unixEpochAsFiletime.toNat : ℤ) = 116444736000000000 from rfl]; omega)
  have hfits : -2 ^ 63 ≤ ((time.ticks.toNat : ℤ) - 116444736000000000).tdiv 10000000 ∧
      ((time.ticks.toNat : ℤ) - 116444736000000000).tdiv 10000000 < 2 ^ 63 := by
    rw [tdiv_eq]
    split_ifs <;> omega
  have hdiv : checkedI128 (((time.ticks.toNat : ℤ) - 116444736000000000).tdiv filetimeTicksPerSecond.toNat) =
      some (((time.ticks.toNat : ℤ) - 116444736000000000).tdiv 10000000) :=
    if_pos (by rw [show (filetimeTicksPerSecond.toNat : ℤ) = 10000000 from rfl]; omega)
  refine ⟨_, ?_, Int64.toInt_ofInt_of_le hfits.1 hfits.2⟩
  simp only [toUnixSeconds, hsub, hdiv, Option.bind_eq_bind, Option.bind_some]
  exact if_pos hfits

/-- What is read off a whole second is that second. -/
theorem toUnixSeconds_fromUnixSeconds {seconds : Int64} {time : FileTime} (h : fromUnixSeconds seconds = some time) :
    toUnixSeconds time = some seconds := by
  rw [fromUnixSeconds_eq_some_iff] at h
  obtain ⟨read, hread, hvalue⟩ := toUnixSeconds_eq time
  have hsame : read.toInt = seconds.toInt := by
    rw [hvalue, ← h, Int.add_sub_cancel, Int.mul_tdiv_cancel _ (by decide)]
  rw [hread, Int64.toInt_inj.mp hsame]

/-- The whole seconds that can be represented are the multiples of a second. -/
theorem whole_iff (time : FileTime) :
    (∃ seconds, fromUnixSeconds seconds = some time) ↔ 10000000 ∣ time.ticks.toNat := by
  have hlt := time.ticks.toNat_lt
  constructor
  · rintro ⟨seconds, h⟩
    rw [fromUnixSeconds_eq_some_iff] at h
    omega
  · intro hdvd
    use Int64.ofInt ((time.ticks.toNat : ℤ) / 10000000 - 11644473600)
    rw [fromUnixSeconds_eq_some_iff, Int64.toInt_ofInt_of_le (by omega) (by omega)]
    omega

/-! ### Rounding -/

/-- The reading of the seconds that are read off a time is the last whole second
not after it. -/
def Floored (time : FileTime) : Prop :=
  ∃ seconds reading, toUnixSeconds time = some seconds ∧ fromUnixSeconds seconds = some reading ∧
    IsGreatest {whole : FileTime | whole ≤ time ∧ ∃ seconds, fromUnixSeconds seconds = some whole} reading

theorem le_iff {time other : FileTime} : time ≤ other ↔ time.ticks.toNat ≤ other.ticks.toNat := UInt64.le_iff_toNat_le

theorem floored_iff (time : FileTime) :
    Floored time ↔ unixEpochAsFiletime ≤ time.ticks ∨ 10000000 ∣ time.ticks.toNat := by
  have hlt := time.ticks.toNat_lt
  have hepoch : unixEpochAsFiletime ≤ time.ticks ↔ 116444736000000000 ≤ time.ticks.toNat := UInt64.le_iff_toNat_le
  obtain ⟨seconds, hread, hvalue⟩ := toUnixSeconds_eq time
  rw [tdiv_eq] at hvalue
  rw [hepoch]
  constructor
  · rintro ⟨read, reading, hseconds, hreading, ⟨hle, -⟩, -⟩
    obtain rfl : seconds = read := Option.some.inj (hread.symm.trans hseconds)
    rw [fromUnixSeconds_eq_some_iff] at hreading
    rw [le_iff] at hle
    split_ifs at hvalue <;> omega
  · intro h
    have hfloor : seconds.toInt * 10000000 + 116444736000000000 = (time.ticks.toNat / 10000000 * 10000000 : ℕ) := by
      split_ifs at hvalue <;> omega
    have hticks : (UInt64.ofNat (time.ticks.toNat / 10000000 * 10000000)).toNat =
        time.ticks.toNat / 10000000 * 10000000 :=
      UInt64.toNat_ofNat_of_lt' ((Nat.div_mul_le_self _ _).trans_lt hlt)
    have hreading : fromUnixSeconds seconds = some ⟨.ofNat (time.ticks.toNat / 10000000 * 10000000)⟩ := by
      rw [fromUnixSeconds_eq_some_iff, hfloor, hticks]
    refine ⟨seconds, _, hread, hreading, ⟨?_, seconds, hreading⟩, ?_⟩
    · rw [le_iff, hticks]
      exact Nat.div_mul_le_self _ _
    · rintro whole ⟨hle, hwhole⟩
      rw [whole_iff] at hwhole
      rw [le_iff] at hle ⊢
      rw [hticks]
      omega

/-! ### Spans -/

theorem durationToTicks_eq (duration : ℕ) :
    durationToTicks duration = if duration / 100 < 2 ^ 64 then some (.ofNat (duration / 100)) else none := by
  rw [durationToTicks, u64TryFrom, show nanosPerFiletimeTick.toNat = 100 from rfl, Int.toNat_natCast]
  exact if_congr (by omega) rfl rfl

/-- A reading moves by the whole ticks of the span, if there is room. -/
theorem checkedAdd_eq_some_iff {time later : FileTime} {duration : ℕ} :
    checkedAdd time duration = some later ↔ time.ticks.toNat + duration / 100 = later.ticks.toNat := by
  have hlt := later.ticks.toNat_lt
  rw [checkedAdd, durationToTicks_eq]
  split_ifs with hfits
  · have hticks : (UInt64.ofNat (duration / 100)).toNat = duration / 100 := UInt64.toNat_ofNat_of_lt' hfits
    rw [Option.bind_eq_bind, Option.bind_some, hticks, map_u64TryFrom_eq_some_iff, Int.natCast_inj]
  · simp only [Option.bind_eq_bind, Option.bind_none, reduceCtorEq, false_iff]
    omega

theorem checkedSub_eq_some_iff {time earlier : FileTime} {duration : ℕ} :
    checkedSub time duration = some earlier ↔ earlier.ticks.toNat + duration / 100 = time.ticks.toNat := by
  have hlt := time.ticks.toNat_lt
  rw [checkedSub, durationToTicks_eq]
  split_ifs with hfits
  · have hticks : (UInt64.ofNat (duration / 100)).toNat = duration / 100 := UInt64.toNat_ofNat_of_lt' hfits
    rw [Option.bind_eq_bind, Option.bind_some, hticks, map_u64TryFrom_eq_some_iff]
    omega
  · simp only [Option.bind_eq_bind, Option.bind_none, reduceCtorEq, false_iff]
    omega

theorem absDifference_eq (time other : FileTime) :
    absDifference time other = 100 * (max time.ticks.toNat other.ticks.toNat - min time.ticks.toNat other.ticks.toNat) := by
  unfold absDifference Duration.fromSecs
  rw [show filetimeTicksPerSecond.toNat = 10000000 from rfl, show nanosPerFiletimeTick.toNat = 100 from rfl]
  generalize max time.ticks.toNat other.ticks.toNat - min time.ticks.toNat other.ticks.toNat = ticks
  have hlt := Nat.mod_lt ticks (show 0 < 10000000 by decide)
  have hnanos : min (ticks % 10000000 * 100) (2 ^ 64 - 1) = ticks % 10000000 * 100 := by omega
  simp only [hnanos]
  rw [if_pos (by omega)]
  omega

/-- Rounding is right from the epoch on and on whole seconds, and wrong at every
other time; the rest of the arithmetic cancels everywhere. -/
theorem rounds_iff_and_cancels (time : FileTime) :
    ((∃ seconds, toUnixSeconds time = some seconds) ∧
      (Floored time ↔ unixEpochAsFiletime ≤ time.ticks ∨ 10000000 ∣ time.ticks.toNat)) ∧
    (∀ seconds, fromUnixSeconds seconds = some time → toUnixSeconds time = some seconds) ∧
    ∀ duration later, checkedAdd time duration = some later →
      checkedSub later duration = some time ∧ absDifference time later = duration / 100 * 100 := by
  obtain ⟨seconds, hread, -⟩ := toUnixSeconds_eq time
  refine ⟨⟨⟨seconds, hread⟩, floored_iff time⟩, fun _ => toUnixSeconds_fromUnixSeconds, ?_⟩
  intro duration later h
  rw [checkedAdd_eq_some_iff] at h
  rw [checkedSub_eq_some_iff, absDifference_eq, ← h]
  refine ⟨rfl, ?_⟩
  omega

/-- The last tick before the epoch is read as the epoch itself. -/
theorem tick_before_epoch_rounds_up :
    toUnixSeconds ⟨unixEpochAsFiletime - 1⟩ = some 0 ∧ fromUnixSeconds 0 = some ⟨unixEpochAsFiletime⟩ ∧
      ¬ Floored ⟨unixEpochAsFiletime - 1⟩ := by
  have hread : toUnixSeconds ⟨unixEpochAsFiletime - 1⟩ = some 0 := by decide
  have hback : fromUnixSeconds 0 = some ⟨unixEpochAsFiletime⟩ := by decide
  refine ⟨hread, hback, ?_⟩
  rintro ⟨seconds, reading, hseconds, hreading, ⟨hle, -⟩, -⟩
  obtain rfl := Option.some.inj (hread.symm.trans hseconds)
  obtain rfl := Option.some.inj (hback.symm.trans hreading)
  exact absurd hle (by decide)

end FileTime

end Kmsrs.Kms
