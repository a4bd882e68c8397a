import Kmsrs.Dbgen.KeyTable
import Kmsrs.Lib.Html

/-! What is read where a text was written with references. They are replaced one kind
after another, the one for `&` first, so that what stood in the text itself as one of
the others is replaced too. -/

namespace Kmsrs.Dbgen.KeyTable

open Text
open Html (special reference)

/-- A text with its special characters in references. -/
def escape (text : Text) : Text := text.flatMap reference

/-- The characters whose references are looked for after that of `&`. -/
def later : List Char := ['<', '>', '\'', '"']

/-- The replacements for some of the characters, in their order. -/
def rereadFrom (stages : List Char) (text : Text) : Text := stages.foldl (fun text c => replace (reference c) [c] text) text

/-- What is read of a text that was written with references. -/
def reread (text : Text) : Text := rereadFrom later text

/-- No reference stands in the text itself that would be taken for one. -/
def Unambiguous (text : Text) : Prop := ∀ c ∈ later, ¬ reference c <:+: text

instance (text : Text) : Decidable (Unambiguous text) := inferInstanceAs (Decidable (∀ c ∈ later, ¬ reference c <:+: text))

/-! ### One kind after another -/

/-- A character once the references of some have been replaced. -/
def partly (decoded : List Char) (c : Char) : Text := if c ∈ decoded then [c] else reference c

theorem reference_of_not_special {c : Char} (h : c ∉ special) : reference c = [c] := by
  unfold reference
  split <;> first | rfl | exact absurd (by decide) h

theorem partly_cases (decoded : List Char) (c : Char) :
    partly decoded c = [c] ∨ c ∈ special ∧ c ∉ decoded ∧ partly decoded c = reference c := by
  rw [partly]
  split_ifs with hdecoded
  · exact .inl rfl
  · by_cases hspecial : c ∈ special
    · exact .inr ⟨hspecial, hdecoded, rfl⟩
    · exact .inl (reference_of_not_special hspecial)

/-- After the `&` of a reference comes no special character. -/
theorem reference_eq_cons {c : Char} (h : c ∈ special) : ∃ tail, reference c = '&' :: tail ∧ ∀ d ∈ tail, d ∉ special := by
  simp only [special, List.mem_cons, List.not_mem_nil, or_false] at h
  rcases h with rfl | rfl | rfl | rfl | rfl <;> exact ⟨_, rfl, by decide⟩

theorem reference_ne_nil {c : Char} (h : c ∈ special) : reference c ≠ [] := by
  obtain ⟨tail, htail, -⟩ := reference_eq_cons h
  rw [htail]
  exact List.cons_ne_nil _ _

/-- The reference of one character is no match for that of another. -/
theorem replace_reference_append {c d : Char} (hc : c ∈ special) (hd : d ∈ special) (hne : c ≠ d) (new rest : Text) :
    replace (reference c) new (reference d ++ rest) = reference d ++ replace (reference c) new rest := by
  simp only [special, List.mem_cons, List.not_mem_nil, or_false] at hc hd
  rcases hc with rfl | rfl | rfl | rfl | rfl <;> rcases hd with rfl | rfl | rfl | rfl | rfl <;>
    first
    | exact absurd rfl hne
    | simp [reference, replace, replaceFrom, List.isPrefixOf]

/-- Where no special character is looked for, references make no difference. -/
theorem prefix_of_prefix_flatMap {front : Text} (hfront : ∀ c ∈ front, c ∉ special) (decoded : List Char) {text : Text}
    (h : front <+: text.flatMap (partly decoded)) : front <+: text := by
  induction front generalizing text with
  | nil => exact List.nil_prefix
  | cons d front ih =>
    rw [List.forall_mem_cons] at hfront
    cases text with
    | nil => simp at h
    | cons c text =>
      rw [List.flatMap_cons] at h
      rcases partly_cases decoded c with hself | ⟨hc, -, hreference⟩
      · rw [hself, List.singleton_append, List.cons_prefix_cons] at h
        rw [h.1, List.cons_prefix_cons]
        exact ⟨rfl, ih hfront.2 h.2⟩
      · obtain ⟨tail, htail, -⟩ := reference_eq_cons hc
        rw [hreference, htail, List.cons_append, List.cons_prefix_cons] at h
        exact absurd (h.1 ▸ by decide) hfront.1

/-- Once `&` stands for itself, replacing a reference acts on the text itself as well. -/
theorem replace_flatMap_partly {decoded : List Char} {x : Char} (hx : x ∈ special) (hnew : x ∉ decoded)
    (hamp : '&' ∈ decoded) (text : Text) :
    replace (reference x) [x] (text.flatMap (partly decoded)) =
      (replace (reference x) [x] text).flatMap (partly (x :: decoded)) := by
  obtain ⟨tail, htail, hplain⟩ := reference_eq_cons hx
  have hne := reference_ne_nil hx
  have hsame : ∀ c, c ≠ x → partly (x :: decoded) c = partly decoded c := by
    intro c hc
    simp [partly, hc]
  have hpartly : partly decoded x = reference x := if_neg hnew
  have hdecoded : partly (x :: decoded) x = [x] := if_pos List.mem_cons_self
  induction text using replace_induction hne with
  | nil => rfl
  | hit rest ih =>
    have hself : (reference x).flatMap (partly decoded) = reference x := by
      have hstay : ∀ c ∈ reference x, partly decoded c = [c] := by
        rw [htail, List.forall_mem_cons]
        refine ⟨if_pos hamp, fun c hc => ?_⟩
        exact (partly_cases decoded c).resolve_right fun hspecial => hplain c hc hspecial.1
      rw [List.flatMap_congr hstay]
      exact List.flatMap_singleton' _
    rw [List.flatMap_append, hself, replace_append_self hne, replace_append_self hne, ih, List.flatMap_append]
    simp [hdecoded]
  | miss c rest hmiss ih =>
    rw [replace_cons hmiss, List.flatMap_cons, List.flatMap_cons, ← ih]
    by_cases hc : c = x
    · rw [hc, hpartly, hdecoded, replace_append_self hne]
    · rw [hsame c hc]
      rcases partly_cases decoded c with hself | ⟨hspecial, -, hreference⟩
      · rw [hself, List.singleton_append, List.singleton_append, replace_cons]
        intro hbegins
        rw [htail, List.cons_prefix_cons] at hbegins
        refine hmiss ?_
        rw [htail, List.cons_prefix_cons]
        exact ⟨hbegins.1, prefix_of_prefix_flatMap hplain decoded hbegins.2⟩
      · rw [hreference, replace_reference_append hx hspecial (Ne.symm hc)]

theorem replace_nbsp_escape (text : Text) : replace ['&', 'n', 'b', 's', 'p', ';'] [' '] (escape text) = escape text := by
  induction text with
  | nil => rfl
  | cons c text ih =>
    rw [escape, List.flatMap_cons, ← escape]
    conv_rhs => rw [← ih]
    by_cases hc : c ∈ special
    · simp only [special, List.mem_cons, List.not_mem_nil, or_false] at hc
      rcases hc with rfl | rfl | rfl | rfl | rfl <;> simp [reference, replace, replaceFrom, List.isPrefixOf]
    · rw [reference_of_not_special hc, List.singleton_append, List.singleton_append, replace_cons]
      intro hbegins
      rw [List.cons_prefix_cons] at hbegins
      exact hc (hbegins.1 ▸ by decide)

theorem replace_amp_escape (text : Text) : replace (reference '&') ['&'] (escape text) = text.flatMap (partly ['&']) := by
  induction text with
  | nil => rfl
  | cons c text ih =>
    rw [escape, List.flatMap_cons, ← escape, List.flatMap_cons, ← ih]
    by_cases hamp : c = '&'
    · subst hamp
      rw [replace_append_self (by decide)]
      rfl
    · rw [partly, if_neg (by simpa using hamp)]
      by_cases hc : c ∈ special
      · exact replace_reference_append (by decide) hc (Ne.symm hamp) _ _
      · rw [reference_of_not_special hc, List.singleton_append, List.singleton_append, replace_cons]
        intro hbegins
        exact hamp (List.cons_prefix_cons.mp hbegins).1.symm

/-- What was written with references is read again with those of its own replaced. -/
theorem decodeReferences_escape (text : Text) : decodeReferences (escape text) = reread text := by
  have hall : ∀ c, partly ['"', '\'', '>', '<', '&'] c = [c] := fun c =>
    (partly_cases _ c).resolve_right fun ⟨hspecial, hnot, _⟩ => by
      simp only [special, List.mem_cons, List.not_mem_nil, or_false] at hspecial hnot
      tauto
  have hnbsp := replace_nbsp_escape text
  have hamp := replace_amp_escape text
  have hlt := replace_flatMap_partly (x := '<') (by decide) (by decide) (show '&' ∈ ['&'] by decide) text
  have hgt := replace_flatMap_partly (x := '>') (by decide) (by decide) (show '&' ∈ ['<', '&'] by decide)
    (rereadFrom ['<'] text)
  have hapos := replace_flatMap_partly (x := '\'') (by decide) (by decide) (show '&' ∈ ['>', '<', '&'] by decide)
    (rereadFrom ['<', '>'] text)
  have hquot := replace_flatMap_partly (x := '"') (by decide) (by decide) (show '&' ∈ ['\'', '>', '<', '&'] by decide)
    (rereadFrom ['<', '>', '\''] text)
  calc decodeReferences (escape text)
      = rereadFrom later (replace (reference '&') ['&'] (replace ['&', 'n', 'b', 's', 'p', ';'] [' '] (escape text))) := rfl
    _ = rereadFrom later (text.flatMap (partly ['&'])) := by rw [hnbsp, hamp]
    _ = rereadFrom ['>', '\'', '"'] ((rereadFrom ['<'] text).flatMap (partly ['<', '&'])) := congrArg (rereadFrom ['>', '\'', '"']) hlt
    _ = rereadFrom ['\'', '"'] ((rereadFrom ['<', '>'] text).flatMap (partly ['>', '<', '&'])) := congrArg (rereadFrom ['\'', '"']) hgt
    _ = rereadFrom ['"'] ((rereadFrom ['<', '>', '\''] text).flatMap (partly ['\'', '>', '<', '&'])) := congrArg (rereadFrom ['"']) hapos
    _ = (reread text).flatMap (partly ['"', '\'', '>', '<', '&']) := hquot
    _ = reread text := by
      rw [List.flatMap_congr fun c _ => hall c]
      exact List.flatMap_singleton' _

/-! ### What rereading changes -/

theorem rereadFrom_cons (c : Char) (stages : List Char) (text : Text) :
    rereadFrom (c :: stages) text = rereadFrom stages (replace (reference c) [c] text) := rfl

theorem not_mem_reference {c d : Char} (hc : c ∈ later) (hd : d ∈ later) : c ∉ reference d := by
  simp only [later, List.mem_cons, List.not_mem_nil, or_false] at hc hd
  rcases hc with rfl | rfl | rfl | rfl <;> rcases hd with rfl | rfl | rfl | rfl <;> decide

theorem special_of_later : ∀ c ∈ later, c ∈ special ∧ 1 < (reference c).length ∧ ' ' ∉ reference c ∧ separator ∉ reference c := by
  decide

theorem mem_rereadFrom {stages : List Char} (hstages : ∀ d ∈ stages, d ∈ later) {c : Char} (hc : c ∈ later) {text : Text}
    (h : c ∈ text) : c ∈ rereadFrom stages text := by
  induction stages generalizing text with
  | nil => exact h
  | cons d stages ih =>
    rw [List.forall_mem_cons] at hstages
    exact ih hstages.2 (mem_replace_of_not_mem (reference_ne_nil (special_of_later d hstages.1).1)
      (not_mem_reference hc hstages.1) h)

/-- Either nothing is replaced, or the text becomes shorter and has a special character. -/
theorem rereadFrom_cases {stages : List Char} (hstages : ∀ d ∈ stages, d ∈ later) (text : Text) :
    (∀ c ∈ stages, ¬ reference c <:+: text) ∧ rereadFrom stages text = text ∨
      ¬ (∀ c ∈ stages, ¬ reference c <:+: text) ∧ (rereadFrom stages text).length < text.length ∧
        ∃ c ∈ later, c ∈ rereadFrom stages text := by
  induction stages generalizing text with
  | nil => exact .inl ⟨by simp, rfl⟩
  | cons c stages ih =>
    rw [List.forall_mem_cons] at hstages
    obtain ⟨hspecial, hlength, -⟩ := special_of_later c hstages.1
    rw [rereadFrom_cons, List.forall_mem_cons]
    rcases replace_cases (reference_ne_nil hspecial) (show [c].length < _ from hlength) text with ⟨hnot, heq⟩ | ⟨hoccurs, hmem, hlt⟩
    · rw [heq]
      rcases ih hstages.2 text with ⟨hnone, hsame⟩ | ⟨hsome, hrest⟩
      · exact .inl ⟨⟨hnot, hnone⟩, hsame⟩
      · exact .inr ⟨fun h => hsome h.2, hrest⟩
    · refine .inr ⟨fun h => h.1 hoccurs, ?_, c, hstages.1, mem_rereadFrom hstages.2 hstages.1 (hmem c List.mem_cons_self)⟩
      rcases ih hstages.2 (replace (reference c) [c] text) with ⟨-, hsame⟩ | ⟨-, hshorter, -⟩
      · rwa [hsame]
      · omega

theorem reread_cases (text : Text) : Unambiguous text ∧ reread text = text ∨
    ¬ Unambiguous text ∧ (reread text).length < text.length ∧ ∃ c ∈ later, c ∈ reread text :=
  rereadFrom_cases (fun _ h => h) text

theorem reread_eq_self {text : Text} (h : Unambiguous text) : reread text = text :=
  (reread_cases text).elim (·.2) fun hnot => absurd h hnot.1

theorem unambiguous_of_length {text : Text} (h : text.length ≤ (reread text).length) : Unambiguous text :=
  (reread_cases text).elim (·.1) fun ⟨_, hlt, _⟩ => absurd hlt (by omega)

theorem length_reread_le (text : Text) : (reread text).length ≤ text.length := by
  rcases reread_cases text with ⟨-, heq⟩ | ⟨-, hlt, -⟩
  · rw [heq]
  · omega

theorem singleSpaced_rereadFrom {stages : List Char} (hstages : ∀ d ∈ stages, d ∈ later) {text : Text}
    (h : SingleSpaced text) : SingleSpaced (rereadFrom stages text) := by
  induction stages generalizing text with
  | nil => exact h
  | cons c stages ih =>
    rw [List.forall_mem_cons] at hstages
    obtain ⟨hspecial, -, hspace, -⟩ := special_of_later c hstages.1
    have hvisible : ∀ c ∈ later, ¬ isWhitespace c := by decide
    exact ih hstages.2 (h.replace (reference_ne_nil hspecial) hspace (List.cons_ne_nil _ _)
      (List.forall_mem_singleton.mpr (hvisible c hstages.1)))

theorem singleSpaced_reread {text : Text} (h : SingleSpaced text) : SingleSpaced (reread text) :=
  singleSpaced_rereadFrom (fun _ h => h) h

theorem separator_not_mem_rereadFrom {stages : List Char} (hstages : ∀ d ∈ stages, d ∈ later) {text : Text}
    (h : separator ∉ text) : separator ∉ rereadFrom stages text := by
  induction stages generalizing text with
  | nil => exact h
  | cons c stages ih =>
    rw [List.forall_mem_cons] at hstages
    have hnew : ∀ c ∈ later, separator ∉ [c] := by decide
    refine ih hstages.2 fun hmem => ?_
    exact (mem_of_mem_replace (reference_ne_nil (special_of_later c hstages.1).1) hmem).elim h (hnew c hstages.1)

theorem separator_not_mem_reread {text : Text} (h : separator ∉ text) : separator ∉ reread text :=
  separator_not_mem_rereadFrom (fun _ h => h) h

theorem rereadFrom_intercalate {stages : List Char} (hstages : ∀ d ∈ stages, d ∈ later) (parts : List Text) :
    rereadFrom stages ([separator].intercalate parts) = [separator].intercalate (parts.map (rereadFrom stages)) := by
  induction stages generalizing parts with
  | nil =>
    rw [show rereadFrom [] = id from rfl, List.map_id]
    rfl
  | cons c stages ih =>
    rw [List.forall_mem_cons] at hstages
    obtain ⟨hspecial, -, -, hseparator⟩ := special_of_later c hstages.1
    rw [rereadFrom_cons, replace_intercalate (reference_ne_nil hspecial) hseparator, ih hstages.2, List.map_map]
    rfl

theorem reread_intercalate (parts : List Text) :
    reread ([separator].intercalate parts) = [separator].intercalate (parts.map reread) :=
  rereadFrom_intercalate (fun _ h => h) parts

end Kmsrs.Dbgen.KeyTable
