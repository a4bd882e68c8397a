import Mathlib.Order.Bounds.Basic
import Mathlib.Tactic.Ring

/-! Padding to whole blocks by a marker. A message is followed by one marker and
by the fewest fillers that complete a block; a marker is always added, so what
is padded can be read back from what the fillers and the last marker leave. -/

namespace Kmsrs.Padding

/-- The fillers after the marker of a message of length `len`. -/
def fewest (size len : ℕ) : ℕ := size - 1 - len % size

theorem fewest_isLeast {size : ℕ} (h : 0 < size) (len : ℕ) :
    IsLeast {fillers | size ∣ len + 1 + fillers} (fewest size len) := by
  have hlt := Nat.mod_lt len h
  have hdiv := Nat.div_add_mod len size
  constructor
  · use len / size + 1
    rw [Nat.mul_add, Nat.mul_one, fewest]
    omega
  · rintro fillers ⟨blocks, hblocks⟩
    have hrest : size ∣ len % size + 1 + fillers := by
      apply (Nat.dvd_add_right (Nat.dvd_mul_right size (len / size))).mp
      exact ⟨blocks, by omega⟩
    have hle := Nat.le_of_dvd (by omega) hrest
    rw [fewest]
    omega

variable {α : Type*} (size : ℕ) (marker filler : α)

def pad (message : List α) : List α := message ++ marker :: List.replicate (fewest size message.length) filler

/-- The message in front of the last marker. -/
def unpad [DecidableEq α] (padded : List α) : List α := (padded.reverse.dropWhile (· = filler)).tail.reverse

variable {marker filler}

theorem unpad_pad [DecidableEq α] (h : marker ≠ filler) (message : List α) :
    unpad filler (pad size marker filler message) = message := by
  have hfillers (count : ℕ) (rest : List α) :
      (List.replicate count filler ++ marker :: rest).dropWhile (· = filler) = marker :: rest := by
    induction count with
    | zero => simp [h]
    | succ count ih => simpa [List.replicate_succ] using ih
  rw [unpad, pad, List.reverse_append, List.reverse_cons, List.reverse_replicate, List.append_assoc,
    List.singleton_append, hfillers, List.tail_cons, List.reverse_reverse]

theorem pad_injective (h : marker ≠ filler) : Function.Injective (pad size marker filler) := by
  classical
  exact Function.LeftInverse.injective (unpad_pad size h)

end Kmsrs.Padding
