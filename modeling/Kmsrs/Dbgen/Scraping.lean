import Kmsrs.Dbgen.KeyPage
import Mathlib.Algebra.BigOperators.Group.Finset.Basic
import Mathlib.Algebra.Order.BigOperators.Group.Finset

/-! What is scraped of a page. Of each key that was written the release and the edition
come out as they are read again, each row once and in order, so that a page comes out
as it was written just when rereading changes none of its names. -/

namespace Kmsrs.Dbgen.KeyTable

open Text
open Sorted (Increasing)

/-- A map of a finite set onto itself that raises no weight keeps every weight. -/
theorem weight_eq_of_image_eq {α : Type*} [DecidableEq α] {set : Finset α} {f : α → α} {weight : α → ℕ}
    (honto : set.image f = set) (hle : ∀ a ∈ set, weight (f a) ≤ weight a) : ∀ a ∈ set, weight (f a) = weight a := by
  have hinjective : Set.InjOn f set := Finset.card_image_iff.mp (by rw [honto])
  have hsum : ∑ a ∈ set, weight (f a) = ∑ a ∈ set, weight a := by
    rw [← Finset.sum_image hinjective, honto]
  exact (Finset.sum_eq_sum_iff_of_le hle).mp hsum

/-- An entry as it is read again. -/
def rereadEntry (entry : Gvlk) : Gvlk := { entry with release := reread entry.release, edition := reread entry.edition }

/-! ### Collecting -/

theorem mem_push {keys : List Gvlk} {entry other : Gvlk} : other ∈ push keys entry ↔ other ∈ keys ∨ other = entry := by
  rw [push]
  split_ifs with hmem
  · refine ⟨.inl, ?_⟩
    rintro (h | rfl)
    · exact h
    · exact hmem
  · rw [List.mem_append, List.mem_singleton]

theorem nodup_push {keys : List Gvlk} (h : keys.Nodup) (entry : Gvlk) : (push keys entry).Nodup := by
  rw [push]
  split_ifs with hmem
  · exact h
  · exact List.nodup_append.mpr ⟨h, List.nodup_singleton _, fun a ha b hb hab =>
      hmem (List.mem_singleton.mp hb ▸ hab ▸ ha)⟩

theorem foldl_push {entries keys : List Gvlk} (h : keys.Nodup) :
    (entries.foldl push keys).Nodup ∧ ∀ entry, entry ∈ entries.foldl push keys ↔ entry ∈ keys ∨ entry ∈ entries := by
  induction entries generalizing keys with
  | nil => simp [h]
  | cons entry entries ih =>
    obtain ⟨hnodup, hmem⟩ := ih (nodup_push h entry)
    refine ⟨hnodup, fun other => ?_⟩
    rw [List.foldl_cons, hmem, mem_push, List.mem_cons, or_assoc]

variable {source : Text}

/-- A row is read under the heading as a row of names that are read again. -/
theorem next_row {row : Row} (h : row.WellFormed) (labels : List (Text × Text)) (release : Text) (keys : List Gvlk) :
    Reading.next labels source ⟨reread release, none, keys⟩ (.row row.stripped) =
      ⟨reread release, none, ((row.entries release source).map rereadEntry).foldl push keys⟩ := by
  have hlines : ∀ line ∈ row.names.map reread, Line line ∧ ¬ isKey line := by
    intro line hline
    obtain ⟨name, hname, rfl⟩ := List.mem_map.mp hline
    exact ⟨(h.name name hname).line.reread, (h.name name hname).not_key_reread⟩
  have hne : row.names.map reread ≠ [] := by simpa using h.names_ne_nil
  have hnames := segments_lines hne fun line hline => (hlines line hline).1
  have hkeyLine := line_of_keyShaped h.key
  have hkey : segments row.key = [row.key] := by
    simpa using segments_lines (List.cons_ne_nil row.key []) (List.forall_mem_singleton.mpr hkeyLine)
  have hisKey : isKey row.key := by
    rw [isKey, hkeyLine.singleSpaced.trim_eq]
    exact h.key
  have hnone : (row.names.map reread).find? isKey = none := List.find?_eq_none.mpr fun line hline => (hlines line hline).2
  have hany : (row.names.map reread).any isKey = false := by
    rw [List.any_eq_false]
    exact fun line hline => (hlines line hline).2
  have hempty : (row.names.map reread).isEmpty = false := List.isEmpty_eq_false_iff.mpr hne
  rw [Reading.next, Row.stripped, List.map_cons, List.map_cons, List.map_nil, hnames, hkey]
  simp only [List.findSome?_cons, hnone, List.find?_cons, hisKey, hany, hempty, Bool.not_false, Bool.and_self,
    Option.getD_none, List.map_map, Row.entries]
  rfl

theorem foldl_rows {rows : List Row} (h : ∀ row ∈ rows, row.WellFormed) (labels : List (Text × Text)) (release : Text)
    (keys : List Gvlk) :
    (rows.map fun row => Event.row row.stripped).foldl (Reading.next labels source) ⟨reread release, none, keys⟩ =
      ⟨reread release, none, ((rows.flatMap (Row.entries release source)).map rereadEntry).foldl push keys⟩ := by
  induction rows generalizing keys with
  | nil => rfl
  | cons row rows ih =>
    rw [List.forall_mem_cons] at h
    rw [List.map_cons, List.foldl_cons, next_row h.1, ih h.2, List.flatMap_cons, List.map_append, List.foldl_append]

/-- The keys of a page are collected as they are read again. -/
theorem foldl_events {sections : List Section} (h : ∀ part ∈ sections, part.WellFormed) (labels : List (Text × Text))
    (reading : Reading) :
    ((sections.flatMap Section.events).foldl (Reading.next labels source) reading).keys =
      ((rendered sections source).map rereadEntry).foldl push reading.keys := by
  induction sections generalizing reading with
  | nil => rfl
  | cons part sections ih =>
    rw [List.forall_mem_cons] at h
    have hheading : Reading.next labels source reading (.heading (reread part.release)) =
        ⟨reread part.release, none, reading.keys⟩ := rfl
    have hcons : rendered (part :: sections) source =
        part.rows.flatMap (Row.entries part.release source) ++ rendered sections source := List.flatMap_cons
    rw [List.flatMap_cons, List.foldl_append, ih h.2, Section.events, List.foldl_cons, hheading, foldl_rows h.1.row,
      hcons, List.map_append, List.foldl_append]

/-! ### Scraping -/

theorem sortKey_injective_of_source {a b : Gvlk} (hsource : a.source = b.source) (h : a.sortKey = b.sortKey) : a = b := by
  obtain ⟨hrelease, h⟩ := Prod.mk.inj (toLex.injective h)
  obtain ⟨hedition, hkey⟩ := Prod.mk.inj (toLex.injective h)
  cases a
  cases b
  simp only [Gvlk.mk.injEq]
  exact ⟨codes_injective hrelease, codes_injective hedition, codes_injective hkey, hsource⟩

/-- A page is parsed to the entries that were written, as they are read again. -/
theorem parse_render {sections : List Section} (h : ∀ part ∈ sections, part.WellFormed) :
    Increasing Gvlk.sortKey (parse (render sections) source) ∧
      ∀ entry, entry ∈ parse (render sections) source ↔ entry ∈ (rendered sections source).map rereadEntry := by
  have hkeys := @foldl_events source sections h (tabLabels (render sections)) ⟨[], none, []⟩
  obtain ⟨hnodup, hmem⟩ := @foldl_push ((rendered sections source).map rereadEntry) [] List.nodup_nil
  have hmem' : ∀ entry, entry ∈ ((rendered sections source).map rereadEntry).foldl push [] ↔
      entry ∈ (rendered sections source).map rereadEntry := by simpa using hmem
  have hsource : ∀ entry ∈ ((rendered sections source).map rereadEntry).foldl push [], entry.source = source := by
    intro entry hentry
    obtain ⟨written, hwritten, rfl⟩ := List.mem_map.mp ((hmem' entry).mp hentry)
    obtain ⟨part, -, hwritten⟩ := List.mem_flatMap.mp hwritten
    obtain ⟨row, -, hwritten⟩ := List.mem_flatMap.mp hwritten
    obtain ⟨name, -, rfl⟩ := List.mem_map.mp hwritten
    rfl
  rw [parse, scan_render h, hkeys]
  refine ⟨increasing_sortBy ?_, fun entry => by rw [mem_sortBy, hmem']⟩
  refine List.Nodup.map_on (fun a ha b hb hab => ?_) hnodup
  exact sortKey_injective_of_source ((hsource a ha).trans (hsource b hb).symm) hab

/-- The page is parsed to exactly the keys that are on it, each once and in order. -/
def Inverts (sections : List Section) (source : Text) : Prop :=
  Increasing Gvlk.sortKey (parse (render sections) source) ∧
    ∀ entry, entry ∈ parse (render sections) source ↔ entry ∈ rendered sections source

def weight (entry : Gvlk) : ℕ := entry.release.length + entry.edition.length

theorem weight_rereadEntry_le (entry : Gvlk) : weight (rereadEntry entry) ≤ weight entry :=
  Nat.add_le_add (length_reread_le _) (length_reread_le _)

/-- A page of well-formed names and keys comes out as it was written just when no
release with a key and no edition has a reference in it. -/
theorem inverts_iff {sections : List Section} (h : ∀ part ∈ sections, part.WellFormed) (source : Text) :
    Inverts sections source ↔
      ∀ entry ∈ rendered sections source, Unambiguous entry.release ∧ Unambiguous entry.edition := by
  obtain ⟨hincreasing, hparse⟩ := @parse_render source sections h
  constructor
  · rintro ⟨-, hmem⟩ entry hentry
    have honto : (rendered sections source).toFinset.image rereadEntry = (rendered sections source).toFinset := by
      ext other
      rw [List.mem_toFinset, ← hmem, hparse, List.mem_map]
      simp
    have hweight := weight_eq_of_image_eq honto (fun entry _ => weight_rereadEntry_le entry) entry (List.mem_toFinset.mpr hentry)
    have hrelease := length_reread_le entry.release
    have hedition := length_reread_le entry.edition
    simp only [weight, rereadEntry] at hweight
    exact ⟨unambiguous_of_length (by omega), unambiguous_of_length (by omega)⟩
  · intro hnames
    have hself : (rendered sections source).map rereadEntry = rendered sections source := by
      refine (List.map_congr_left fun entry hentry => ?_).trans (List.map_id _)
      obtain ⟨hrelease, hedition⟩ := hnames entry hentry
      rw [rereadEntry, reread_eq_self hrelease, reread_eq_self hedition]
      rfl
    refine ⟨hincreasing, fun entry => ?_⟩
    rw [hparse, hself]

/-- `AAAAA-AAAAA-AAAAA-AAAAA-AAAAA` -/
def sampleKey : Text := ['-'].intercalate (List.replicate 5 (List.replicate 5 'A'))

theorem keyShaped_sampleKey : keyShaped sampleKey := by decide

theorem name_r : Name ['R'] := ⟨by decide, by decide, by decide⟩

/-- A page with one release, `R`, and one edition. -/
def samplePage (edition : Text) : List Section := [⟨['R'], [⟨[edition], sampleKey⟩]⟩]

theorem wellFormed_samplePage {edition : Text} (h : Name edition) : ∀ part ∈ samplePage edition, part.WellFormed := by
  have hrow : Row.WellFormed ⟨[edition], sampleKey⟩ :=
    ⟨List.cons_ne_nil _ _, List.forall_mem_singleton.mpr h, keyShaped_sampleKey⟩
  exact List.forall_mem_singleton.mpr ⟨name_r, List.forall_mem_singleton.mpr hrow⟩

/-- An edition with an ampersand of its own. -/
theorem inverts_ampersand : Inverts (samplePage ['A', '&', 'B']) [] ↔
    ∀ entry ∈ rendered (samplePage ['A', '&', 'B']) [], Unambiguous entry.release ∧ Unambiguous entry.edition :=
  inverts_iff (wellFormed_samplePage ⟨by decide, by decide, by decide⟩) []

/-- An edition that is called `&lt;`. -/
theorem edition_decoded_twice :
    (⟨['R'], ['<'], sampleKey, []⟩ : Gvlk) ∈ parse (render (samplePage ['&', 'l', 't', ';'])) [] ∧
      ¬ Inverts (samplePage ['&', 'l', 't', ';']) [] := by
  have hwell := @wellFormed_samplePage ['&', 'l', 't', ';'] ⟨by decide, by decide, by decide⟩
  obtain ⟨-, hparse⟩ := @parse_render [] _ hwell
  have hwritten : rendered (samplePage ['&', 'l', 't', ';']) [] = [⟨['R'], ['&', 'l', 't', ';'], sampleKey, []⟩] := rfl
  have hread : rereadEntry ⟨['R'], ['&', 'l', 't', ';'], sampleKey, []⟩ = ⟨['R'], ['<'], sampleKey, []⟩ := by
    rw [rereadEntry, Gvlk.mk.injEq]
    exact ⟨by decide, by decide, rfl, rfl⟩
  rw [hwritten, List.map_singleton, hread] at hparse
  refine ⟨(hparse _).mpr List.mem_cons_self, fun hinverts => ?_⟩
  have hmem := (hinverts.2 ⟨['R'], ['&', 'l', 't', ';'], sampleKey, []⟩).mpr (by rw [hwritten]; exact List.mem_cons_self)
  rw [hparse, List.mem_singleton, Gvlk.mk.injEq] at hmem
  exact absurd hmem.2.1 (by decide)

end Kmsrs.Dbgen.KeyTable
