import Kmsrs.Lib.Text

/-! Numbers and times as text, the way the standard library formats them, and the
texts in which there is no control character. -/

namespace Kmsrs.Text

/-- No control character. -/
def Printable (text : Text) : Prop := ∀ c ∈ text, ¬ isControl c

instance (text : Text) : Decidable (Printable text) := inferInstanceAs (Decidable (∀ c ∈ text, ¬ isControl c))

@[simp] theorem printable_nil : Printable [] := by simp [Printable]

/-- A literal is looked through character by character. -/
theorem printable_literal {s : String} {text : Text} (hs : s = String.ofList text) (h : ∀ c ∈ text, ¬ isControl c) :
    Printable s.toList := by
  subst hs
  rwa [String.toList_ofList]

@[simp] theorem printable_cons {c : Char} {text : Text} : Printable (c :: text) ↔ ¬ isControl c ∧ Printable text :=
  List.forall_mem_cons

@[simp] theorem printable_append {before after : Text} : Printable (before ++ after) ↔ Printable before ∧ Printable after :=
  List.forall_mem_append

theorem Printable.sublist {part text : Text} (h : Printable text) (hpart : part.Sublist text) : Printable part :=
  fun c hc => h c (hpart.subset hc)

theorem printable_flatMap {ι : Type*} {items : List ι} {f : ι → Text} (h : ∀ item ∈ items, Printable (f item)) :
    Printable (items.flatMap f) := by
  intro c hc
  obtain ⟨item, hitem, hc⟩ := List.mem_flatMap.mp hc
  exact h item hitem c hc

/-- What holds in the separator and in every part holds in all of them joined. -/
theorem forall_mem_intercalate {α : Type*} {p : α → Prop} {separator : List α} (hseparator : ∀ a ∈ separator, p a)
    {parts : List (List α)} (h : ∀ part ∈ parts, ∀ a ∈ part, p a) : ∀ a ∈ separator.intercalate parts, p a := by
  induction parts with
  | nil => simp
  | cons part parts ih =>
    rw [List.forall_mem_cons] at h
    cases parts with
    | nil => simpa using h.1
    | cons next parts =>
      rw [List.intercalate_cons_cons, List.forall_mem_append, List.forall_mem_append]
      exact ⟨⟨h.1, hseparator⟩, ih h.2⟩

/-! ### Numbers -/

/-- `{:05}` and the like: zeros in front. -/
def padded (width n : ℕ) : Text := (decimal n).leftpad width '0'

/-- `{:x}` -/
def hex (n : ℕ) : Text := Nat.toDigits 16 n

/-- `{:08x}` and the like. -/
def hexPadded (width n : ℕ) : Text := (hex n).leftpad width '0'

/-- `{:08X}` and the like. -/
def hexUpper (width n : ℕ) : Text := (hexPadded width n).map Char.toUpper

theorem isDigit_decimal {n : ℕ} {c : Char} (h : c ∈ decimal n) : c.isDigit :=
  Nat.isDigit_of_mem_toDigits (by norm_num) le_rfl h

/-- Digits as a number. -/
def readDecimal (text : Text) : Option ℕ :=
  if text ≠ [] ∧ text.all Char.isDigit then some (Nat.ofDigitChars 10 text 0) else none

theorem readDecimal_decimal (n : ℕ) : readDecimal (decimal n) = some n := by
  have hne : decimal n ≠ [] := Nat.toDigits_ne_nil
  have hdigits : (decimal n).all Char.isDigit = true := List.all_eq_true.mpr fun c h => isDigit_decimal h
  rw [readDecimal, if_pos ⟨hne, hdigits⟩, decimal, Nat.ofDigitChars_toDigits (by decide) (by decide)]

theorem isDigit_padded {width n : ℕ} {c : Char} (h : c ∈ padded width n) : c.isDigit := by
  rw [padded, List.leftpad, List.mem_append] at h
  rcases h with hzero | hdigit
  · rw [List.eq_of_mem_replicate hzero]
    rfl
  · exact isDigit_decimal hdigit

theorem le_length_padded (width n : ℕ) : width ≤ (padded width n).length := by
  rw [padded, List.length_leftpad]
  exact le_max_left _ _

/-- The width is kept just by the numbers that have no more digits. -/
theorem length_padded_eq_iff {width n : ℕ} (hwidth : 0 < width) : (padded width n).length = width ↔ n < 10 ^ width := by
  rw [padded, List.length_leftpad, max_eq_left_iff, decimal, Nat.length_toDigits_le_iff (by norm_num) hwidth]

theorem mem_toDigits {base : ℕ} (hbase : 1 < base) {n : ℕ} {c : Char} (h : c ∈ Nat.toDigits base n) :
    ∃ digit < base, c = Nat.digitChar digit := by
  induction n using Nat.strong_induction_on with
  | _ n ih =>
    rw [Nat.toDigits_eq_if hbase] at h
    split_ifs at h with hsmall
    · exact ⟨n, hsmall, List.mem_singleton.mp h⟩
    · rw [List.mem_append, List.mem_singleton] at h
      rcases h with h | rfl
      · exact ih (n / base) (Nat.div_lt_self (by omega) hbase) h
      · exact ⟨n % base, Nat.mod_lt n (by omega), rfl⟩

theorem digitChar_printable : ∀ digit < 16, ¬ isControl (Nat.digitChar digit) ∧ ¬ isControl (Nat.digitChar digit).toUpper := by
  decide

section Digits

variable {p : Char → Prop} (hdigit : ∀ digit < 16, p (Nat.digitChar digit))

include hdigit

theorem forall_mem_hex (n : ℕ) : ∀ c ∈ hex n, p c := by
  intro c hc
  obtain ⟨digit, hlt, rfl⟩ := mem_toDigits (by norm_num) hc
  exact hdigit digit hlt

theorem forall_mem_decimal (n : ℕ) : ∀ c ∈ decimal n, p c := by
  intro c hc
  obtain ⟨digit, hlt, rfl⟩ := mem_toDigits (by norm_num) hc
  exact hdigit digit (by omega)

theorem forall_mem_hexPadded (width n : ℕ) : ∀ c ∈ hexPadded width n, p c := by
  rw [hexPadded, List.leftpad, List.forall_mem_append]
  refine ⟨fun c hc => ?_, forall_mem_hex hdigit n⟩
  rw [List.eq_of_mem_replicate hc]
  exact hdigit 0 (by norm_num)

end Digits

theorem printable_hex (n : ℕ) : Printable (hex n) := forall_mem_hex (fun digit hlt => (digitChar_printable digit hlt).1) n

theorem printable_decimal (n : ℕ) : Printable (decimal n) :=
  forall_mem_decimal (fun digit hlt => (digitChar_printable digit hlt).1) n

theorem printable_leftpad {text : Text} (h : Printable text) (width : ℕ) : Printable (text.leftpad width '0') := by
  rw [List.leftpad, printable_append]
  refine ⟨fun c hc => ?_, h⟩
  rw [List.eq_of_mem_replicate hc]
  decide

theorem printable_hexUpper (width n : ℕ) : Printable (hexUpper width n) := by
  intro c hc
  obtain ⟨digit, hdigit, rfl⟩ := List.mem_map.mp hc
  rw [hexPadded, List.leftpad, List.mem_append] at hdigit
  rcases hdigit with hzero | hdigit
  · rw [List.eq_of_mem_replicate hzero]
    decide
  · obtain ⟨digit, hlt, rfl⟩ := mem_toDigits (by norm_num) hdigit
    exact (digitChar_printable digit hlt).2

/-! ### Times -/

/-- A number of units and the part of the next one, without the zeros at its end. -/
def withFraction (width whole fraction : ℕ) : Text :=
  decimal whole ++
    if fraction = 0 then [] else '.' :: ((decimal fraction).leftpad width '0').rdropWhile (· == '0')

/-- `Debug` of a time in nanoseconds. -/
def debugDuration (nanoseconds : ℕ) : Text :=
  if 10 ^ 9 ≤ nanoseconds then withFraction 9 (nanoseconds / 10 ^ 9) (nanoseconds % 10 ^ 9) ++ ['s']
  else if 10 ^ 6 ≤ nanoseconds then withFraction 6 (nanoseconds / 10 ^ 6) (nanoseconds % 10 ^ 6) ++ ['m', 's']
  else if 1000 ≤ nanoseconds then withFraction 3 (nanoseconds / 1000) (nanoseconds % 1000) ++ ['µ', 's']
  else decimal nanoseconds ++ ['n', 's']

theorem printable_withFraction (width whole fraction : ℕ) : Printable (withFraction width whole fraction) := by
  rw [withFraction, printable_append]
  refine ⟨printable_decimal whole, ?_⟩
  split_ifs
  · exact printable_nil
  · exact printable_cons.mpr ⟨by decide, (printable_leftpad (printable_decimal fraction) width).sublist
      (List.rdropWhile_prefix _ _).sublist⟩

theorem printable_debugDuration (nanoseconds : ℕ) : Printable (debugDuration nanoseconds) := by
  unfold debugDuration
  split_ifs
  · exact printable_append.mpr ⟨printable_withFraction _ _ _, by decide⟩
  · exact printable_append.mpr ⟨printable_withFraction _ _ _, by decide⟩
  · exact printable_append.mpr ⟨printable_withFraction _ _ _, by decide⟩
  · exact printable_append.mpr ⟨printable_decimal _, by decide⟩

example : debugDuration 14401500000000 = "14401.5s".toList := by decide +kernel

end Kmsrs.Text
