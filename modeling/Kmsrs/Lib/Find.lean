import Kmsrs.Lib.Split

/-! Searching a text and replacing in it. A search passes over what cannot begin a
match; a replacement of something by one character shortens the text just when there
is something to replace, and does not reach across a character that is in no match. -/

namespace Kmsrs.Text

/-! ### Searching -/

/-- `find`: the first place where a text stands. -/
def find (needle : Text) : Text → Option ℕ
  | [] => if needle = [] then some 0 else none
  | c :: rest => if needle.isPrefixOf (c :: rest) then some 0 else (find needle rest).map (· + 1)

theorem find_append_self {needle : Text} (hne : needle ≠ []) (rest : Text) : find needle (needle ++ rest) = some 0 := by
  cases needle with
  | nil => exact absurd rfl hne
  | cons c needle =>
    rw [List.cons_append, find, if_pos]
    rw [List.isPrefixOf_iff_prefix, ← List.cons_append]
    exact List.prefix_append _ _

theorem length_le_of_find {needle text : Text} {at' : ℕ} (h : find needle text = some at') :
    at' + needle.length ≤ text.length := by
  induction text generalizing at' with
  | nil =>
    obtain ⟨rfl, rfl⟩ : needle = [] ∧ at' = 0 := by simpa [find, eq_comm] using h
    exact le_rfl
  | cons c rest ih =>
    rw [find] at h
    split_ifs at h with hbegins
    · cases h
      rw [Nat.zero_add]
      exact (List.isPrefixOf_iff_prefix.mp hbegins).length_le
    · obtain ⟨place, hplace, rfl⟩ := Option.map_eq_some_iff.mp h
      have := ih hplace
      rw [List.length_cons]
      omega

/-- A search passes over a text, whatever follows. -/
def Skips (needle text : Text) : Prop := ∀ rest, find needle (text ++ rest) = (find needle rest).map (· + text.length)

theorem skips_nil (needle : Text) : Skips needle [] := fun rest => by simp

theorem Skips.append {needle before after : Text} (hbefore : Skips needle before) (hafter : Skips needle after) :
    Skips needle (before ++ after) := by
  intro rest
  rw [List.append_assoc, hbefore, hafter, Option.map_map]
  congr 1
  funext place
  simp only [Function.comp_apply, List.length_append]
  omega

theorem skips_cons {needle : Text} {c : Char} {text : Text} (hc : ∀ rest, ¬ needle.isPrefixOf (c :: (text ++ rest)))
    (h : Skips needle text) : Skips needle (c :: text) := by
  intro rest
  rw [List.cons_append, find, if_neg (hc rest), h, Option.map_map]
  rfl

/-- What begins with a character is not found in a text without it. -/
theorem skips_of_not_mem {c : Char} {needle text : Text} (h : c ∉ text) : Skips (c :: needle) text := by
  induction text with
  | nil => exact skips_nil _
  | cons d text ih =>
    rw [List.mem_cons, not_or] at h
    refine skips_cons (fun rest hbegins => h.1 ?_) (ih h.2)
    rw [List.isPrefixOf_iff_prefix] at hbegins
    exact (List.cons_prefix_cons.mp hbegins).1

theorem skips_intercalate {needle separator : Text} (hseparator : Skips needle separator) {parts : List Text}
    (h : ∀ part ∈ parts, Skips needle part) : Skips needle (separator.intercalate parts) := by
  induction parts with
  | nil => exact skips_nil needle
  | cons part parts ih =>
    rw [List.forall_mem_cons] at h
    cases parts with
    | nil => simpa using h.1
    | cons next parts =>
      rw [List.intercalate_cons_cons]
      exact (h.1.append hseparator).append (ih h.2)

theorem Skips.find_append {needle text : Text} (h : Skips needle text) (hne : needle ≠ []) (rest : Text) :
    find needle (text ++ (needle ++ rest)) = some text.length := by
  rw [h, find_append_self hne, Option.map_some, Nat.zero_add]

theorem Skips.find_eq_none {needle text : Text} (h : Skips needle text) (hne : needle ≠ []) : find needle text = none := by
  have hend := h []
  rwa [List.append_nil, find, if_neg hne, Option.map_none] at hend

/-! ### Replacing -/

/-- The loop of a replacement, from left to right; `skip` characters still belong to
the last match. -/
def replaceFrom (needle new : Text) : (skip : ℕ) → Text → Text
  | _, [] => []
  | skip + 1, _ :: rest => replaceFrom needle new skip rest
  | 0, c :: rest =>
    if needle.isPrefixOf (c :: rest) then new ++ replaceFrom needle new (needle.length - 1) rest
    else c :: replaceFrom needle new 0 rest

/-- `replace` -/
def replace (needle new text : Text) : Text := replaceFrom needle new 0 text

variable {needle new : Text}

theorem replaceFrom_append (skipped rest : Text) :
    replaceFrom needle new skipped.length (skipped ++ rest) = replace needle new rest := by
  induction skipped with
  | nil => rfl
  | cons c skipped ih => rw [List.length_cons, List.cons_append, replaceFrom, ih]

theorem replace_append_self (hne : needle ≠ []) (rest : Text) :
    replace needle new (needle ++ rest) = new ++ replace needle new rest := by
  cases needle with
  | nil => exact absurd rfl hne
  | cons c needle =>
    have hbegins : (c :: needle).isPrefixOf (c :: (needle ++ rest)) := by
      rw [List.isPrefixOf_iff_prefix, ← List.cons_append]
      exact List.prefix_append _ _
    rw [replace, List.cons_append, replaceFrom, if_pos hbegins, List.length_cons, Nat.add_sub_cancel, replaceFrom_append]

theorem replace_cons {c : Char} {rest : Text} (h : ¬ needle <+: c :: rest) :
    replace needle new (c :: rest) = c :: replace needle new rest := by
  rw [replace, replaceFrom, if_neg (by rwa [List.isPrefixOf_iff_prefix])]
  rfl

/-- A text is cut in matches and characters that begin none. -/
theorem replace_induction (hne : needle ≠ []) {motive : Text → Prop} (nil : motive [])
    (hit : ∀ rest, motive rest → motive (needle ++ rest))
    (miss : ∀ c rest, ¬ needle <+: c :: rest → motive rest → motive (c :: rest)) (text : Text) : motive text := by
  induction hn : text.length using Nat.strong_induction_on generalizing text with
  | _ n ih =>
    cases text with
    | nil => exact nil
    | cons c rest =>
      by_cases hbegins : needle <+: c :: rest
      · obtain ⟨after, hafter⟩ := hbegins
        have hpos := List.length_pos_iff.mpr hne
        have hlength := congrArg List.length hafter
        rw [List.length_append] at hlength
        rw [← hafter]
        exact hit after (ih after.length (by omega) after rfl)
      · rw [List.length_cons] at hn
        exact miss c rest hbegins (ih rest.length (by omega) rest rfl)

/-- A character of no match stays where it is. -/
theorem replace_append_cons (hne : needle ≠ []) {c : Char} (hc : c ∉ needle) (before after : Text) :
    replace needle new (before ++ c :: after) = replace needle new before ++ c :: replace needle new after := by
  induction before using replace_induction hne with
  | nil =>
    refine replace_cons fun hbegins => ?_
    cases needle with
    | nil => exact hne rfl
    | cons d needle =>
      obtain rfl := (List.cons_prefix_cons.mp hbegins).1
      exact hc List.mem_cons_self
  | hit rest ih => rw [List.append_assoc, replace_append_self hne, replace_append_self hne, ih, List.append_assoc]
  | miss d rest hmiss ih =>
    have hstill : ¬ needle <+: d :: (rest ++ c :: after) := fun hbegins =>
      hmiss (prefix_of_prefix_append_cons hbegins hc)
    rw [List.cons_append, replace_cons hstill, replace_cons hmiss, ih, List.cons_append]

theorem replace_intercalate (hne : needle ≠ []) {separator : Char} (hseparator : separator ∉ needle) (parts : List Text) :
    replace needle new ([separator].intercalate parts) = [separator].intercalate (parts.map (replace needle new)) := by
  induction parts with
  | nil => rfl
  | cons part parts ih =>
    cases parts with
    | nil => simp
    | cons next parts =>
      rw [List.intercalate_cons_cons, List.append_assoc, List.singleton_append, replace_append_cons hne hseparator, ih]
      simp only [List.map_cons, List.intercalate_cons_cons, List.append_assoc, List.singleton_append]

theorem mem_of_mem_replace (hne : needle ≠ []) {c : Char} {text : Text} (h : c ∈ replace needle new text) :
    c ∈ text ∨ c ∈ new := by
  induction text using replace_induction hne with
  | nil => exact .inl h
  | hit rest ih =>
    rw [replace_append_self hne, List.mem_append] at h
    rcases h with h | h
    · exact .inr h
    · exact (ih h).imp_left (List.mem_append_right needle)
  | miss d rest hmiss ih =>
    rw [replace_cons hmiss, List.mem_cons] at h
    rcases h with rfl | h
    · exact .inl List.mem_cons_self
    · exact (ih h).imp_left (List.mem_cons_of_mem d)

theorem mem_replace_of_not_mem (hne : needle ≠ []) {c : Char} (hc : c ∉ needle) {text : Text} (h : c ∈ text) :
    c ∈ replace needle new text := by
  obtain ⟨before, after, rfl⟩ := List.append_of_mem h
  rw [replace_append_cons hne hc]
  exact List.mem_append_right _ List.mem_cons_self

theorem replace_ne_nil (hne : needle ≠ []) (hnew : new ≠ []) {text : Text} (h : text ≠ []) : replace needle new text ≠ [] := by
  induction text using replace_induction hne with
  | nil => exact absurd rfl h
  | hit rest =>
    rw [replace_append_self hne]
    exact List.append_ne_nil_of_left_ne_nil hnew _
  | miss d rest hmiss =>
    rw [replace_cons hmiss]
    exact List.cons_ne_nil _ _

/-- Either there is nothing to replace, or something is. -/
theorem replace_cases (hne : needle ≠ []) (hshorter : new.length < needle.length) (text : Text) :
    ¬ needle <:+: text ∧ replace needle new text = text ∨
      needle <:+: text ∧ (∀ c ∈ new, c ∈ replace needle new text) ∧ (replace needle new text).length < text.length := by
  induction text using replace_induction hne with
  | nil => exact .inl ⟨by rwa [List.infix_nil], rfl⟩
  | hit rest ih =>
    refine .inr ⟨⟨[], rest, rfl⟩, fun c hc => ?_, ?_⟩
    · rw [replace_append_self hne]
      exact List.mem_append_left _ hc
    · rw [replace_append_self hne, List.length_append, List.length_append]
      rcases ih with ⟨-, heq⟩ | ⟨-, -, hlt⟩
      · rw [heq]
        omega
      · omega
  | miss d rest hmiss ih =>
    rw [replace_cons hmiss, List.infix_cons_iff, List.length_cons, List.length_cons]
    rcases ih with ⟨hnot, heq⟩ | ⟨hoccurs, hmem, hlt⟩
    · exact .inl ⟨not_or.mpr ⟨hmiss, hnot⟩, by rw [heq]⟩
    · exact .inr ⟨.inr hoccurs, fun c hc => List.mem_cons_of_mem d (hmem c hc), by omega⟩

end Kmsrs.Text
