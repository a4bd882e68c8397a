import Kmsrs.Lib.Rows
import Mathlib.Data.List.Dedup

/-! A scan that keeps one row for each key: an item makes a row where its key has none, and
is added to the row where it has one. The rows are those of the groups. -/

namespace Kmsrs

/-- How a row is made and added to; it keeps its key. -/
structure Gather (α ρ κ : Type*) where
  key : α → κ
  rowKey : ρ → κ
  first : α → ρ
  again : ρ → α → ρ
  rowKey_first : ∀ a, rowKey (first a) = key a
  rowKey_again : ∀ row a, rowKey (again row a) = rowKey row

namespace Gather

variable {α ρ κ : Type*} [DecidableEq κ] (G : Gather α ρ κ)

/-- The rows with one more item. -/
def put (a : α) : List ρ → List ρ
  | [] => [G.first a]
  | row :: rows => if G.rowKey row = G.key a then G.again row a :: rows else row :: put a rows

def rows (items : List α) : List ρ := items.foldl (fun rows a => G.put a rows) []

/-- The items of a key, in their order. -/
def group (k : κ) (items : List α) : List α := items.filter fun a => G.key a = k

/-- The row of some items of one key. -/
def rowOf : List α → Option ρ
  | [] => none
  | a :: later => some (later.foldl G.again (G.first a))

variable {G}

theorem map_rowKey_put (a : α) (rows : List ρ) : (G.put a rows).map G.rowKey =
    if G.key a ∈ rows.map G.rowKey then rows.map G.rowKey else rows.map G.rowKey ++ [G.key a] := by
  induction rows with
  | nil => simp [put, G.rowKey_first]
  | cons row rows ih =>
    rw [put]
    by_cases hkey : G.rowKey row = G.key a
    · simp [hkey, G.rowKey_again]
    · rw [if_neg hkey, List.map_cons, List.map_cons, ih]
      by_cases hlater : G.key a ∈ rows.map G.rowKey
      · rw [if_pos hlater, if_pos (List.mem_cons_of_mem _ hlater)]
      · rw [if_neg hlater, if_neg (List.not_mem_cons_of_ne_of_not_mem (Ne.symm hkey) hlater), List.cons_append]

theorem mem_rowKey_put (a : α) (rows : List ρ) (k : κ) :
    k ∈ (G.put a rows).map G.rowKey ↔ k ∈ rows.map G.rowKey ∨ k = G.key a := by
  rw [map_rowKey_put]
  split_ifs with hkey
  · constructor
    · exact .inl
    · rintro (hmem | rfl)
      · exact hmem
      · exact hkey
  · rw [List.mem_append, List.mem_singleton]

theorem nodup_put {rows : List ρ} (h : (rows.map G.rowKey).Nodup) (a : α) : ((G.put a rows).map G.rowKey).Nodup := by
  rw [map_rowKey_put]
  split_ifs with hkey
  · exact h
  · exact h.concat hkey |> fun hconcat => by rwa [List.concat_eq_append] at hconcat

/-- The other rows stay, and the row of the key is made or added to. -/
theorem mem_put_iff {rows : List ρ} (h : (rows.map G.rowKey).Nodup) (a : α) (row : ρ) :
    row ∈ G.put a rows ↔ (row ∈ rows ∧ G.rowKey row ≠ G.key a) ∨
      (∃ old ∈ rows, G.rowKey old = G.key a ∧ row = G.again old a) ∨
      ((∀ old ∈ rows, G.rowKey old ≠ G.key a) ∧ row = G.first a) := by
  induction rows with
  | nil => simp [put]
  | cons first rows ih =>
    obtain ⟨hfresh, hnodup⟩ := List.nodup_cons.mp h
    rw [put]
    by_cases hkey : G.rowKey first = G.key a
    · have hothers : ∀ old ∈ rows, G.rowKey old ≠ G.key a := fun old hold hsame =>
        hfresh (List.mem_map.mpr ⟨old, hold, hsame.trans hkey.symm⟩)
      rw [if_pos hkey, List.mem_cons]
      constructor
      · rintro (rfl | hrow)
        · exact .inr (.inl ⟨first, List.mem_cons_self, hkey, rfl⟩)
        · exact .inl ⟨List.mem_cons_of_mem _ hrow, hothers row hrow⟩
      · rintro (⟨hrow, hne⟩ | ⟨old, hold, hsame, rfl⟩ | ⟨hnone, -⟩)
        · rcases List.mem_cons.mp hrow with rfl | hrow
          · exact absurd hkey hne
          · exact .inr hrow
        · rcases List.mem_cons.mp hold with rfl | hold
          · exact .inl rfl
          · exact absurd hsame (hothers old hold)
        · exact absurd hkey (hnone first List.mem_cons_self)
    · rw [if_neg hkey, List.mem_cons, ih hnodup, List.exists_mem_cons_iff, List.forall_mem_cons]
      constructor
      · rintro (rfl | ⟨hrow, hne⟩ | hagain | ⟨hnone, rfl⟩)
        · exact .inl ⟨List.mem_cons_self, hkey⟩
        · exact .inl ⟨List.mem_cons_of_mem _ hrow, hne⟩
        · exact .inr (.inl (.inr hagain))
        · exact .inr (.inr ⟨⟨hkey, hnone⟩, rfl⟩)
      · rintro (⟨hrow, hne⟩ | (⟨hsame, -⟩ | hagain) | ⟨⟨-, hnone⟩, rfl⟩)
        · rcases List.mem_cons.mp hrow with rfl | hrow
          · exact .inl rfl
          · exact .inr (.inl ⟨hrow, hne⟩)
        · exact absurd hsame hkey
        · exact .inr (.inr (.inl hagain))
        · exact .inr (.inr (.inr ⟨hnone, rfl⟩))

/-! ### The whole scan -/

@[simp] theorem rows_nil : G.rows [] = [] := rfl

theorem rows_concat (items : List α) (a : α) : G.rows (items ++ [a]) = G.put a (G.rows items) := List.foldl_concat ..

theorem group_concat (k : κ) (items : List α) (a : α) :
    G.group k (items ++ [a]) = G.group k items ++ if G.key a = k then [a] else [] := by
  rw [group, List.filter_append, ← group]
  by_cases hkey : G.key a = k
  · simp [hkey]
  · simp [hkey]

omit [DecidableEq κ] in
theorem rowOf_concat (items : List α) (a : α) :
    G.rowOf (items ++ [a]) = some ((G.rowOf items).elim (G.first a) fun row => G.again row a) := by
  cases items with
  | nil => rfl
  | cons first later => rw [List.cons_append, rowOf, List.foldl_concat, rowOf, Option.elim_some]

theorem rowKey_rowOf {k : κ} {items : List α} {row : ρ} (h : G.rowOf (G.group k items) = some row) : G.rowKey row = k := by
  have hkept : ∀ (later : List α) (row : ρ), G.rowKey (later.foldl G.again row) = G.rowKey row := by
    intro later
    induction later with
    | nil => exact fun _ => rfl
    | cons a later ih => exact fun row => (ih (G.again row a)).trans (G.rowKey_again row a)
  cases hgroup : G.group k items with
  | nil =>
    rw [hgroup] at h
    cases h
  | cons a later =>
    have hmem : a ∈ G.group k items := hgroup ▸ List.mem_cons_self
    rw [hgroup, rowOf, Option.some.injEq] at h
    rw [← h, hkept, G.rowKey_first]
    exact of_decide_eq_true (List.mem_filter.mp hmem).2

theorem nodup_rows (items : List α) : ((G.rows items).map G.rowKey).Nodup := by
  induction items using List.reverseRecOn with
  | nil => exact List.nodup_nil
  | append_singleton items a ih =>
    rw [rows_concat]
    exact nodup_put ih a

theorem mem_rowKey_rows (items : List α) (k : κ) : k ∈ (G.rows items).map G.rowKey ↔ k ∈ items.map G.key := by
  induction items using List.reverseRecOn with
  | nil => simp
  | append_singleton items a ih => rw [rows_concat, mem_rowKey_put, ih, List.map_append, List.mem_append, List.map_singleton,
      List.mem_singleton]

/-- The rows are those of the groups. -/
theorem mem_rows_iff {items : List α} {row : ρ} : row ∈ G.rows items ↔ G.rowOf (G.group (G.rowKey row) items) = some row := by
  induction items using List.reverseRecOn generalizing row with
  | nil => simp [group, rowOf]
  | append_singleton items a ih =>
    have hnodup := nodup_rows (G := G) items
    rw [rows_concat, mem_put_iff hnodup, group_concat]
    by_cases hkey : G.key a = G.rowKey row
    · rw [if_pos hkey, rowOf_concat, Option.some.injEq]
      -- the row of the key before, if there was one
      cases hold : G.rowOf (G.group (G.rowKey row) items) with
      | none =>
        have hnone : ∀ old ∈ G.rows items, G.rowKey old ≠ G.key a := by
          intro old hmem hsame
          rw [ih, hsame, hkey, hold] at hmem
          cases hmem
        constructor
        · rintro (⟨-, hne⟩ | ⟨old, hmem, hsame, -⟩ | ⟨-, rfl⟩)
          · exact absurd hkey.symm hne
          · exact absurd hsame (hnone old hmem)
          · rfl
        · intro hrow
          exact .inr (.inr ⟨hnone, hrow.symm⟩)
      | some old =>
        have holdKey : G.rowKey old = G.key a := (rowKey_rowOf hold).trans hkey.symm
        have hmem : old ∈ G.rows items := by rw [ih, holdKey, hkey, hold]
        constructor
        · rintro (⟨-, hne⟩ | ⟨other, hother, hsame, rfl⟩ | ⟨hnone, -⟩)
          · exact absurd hkey.symm hne
          · have hsame' : other = old := by
              rw [ih, hsame, hkey, hold] at hother
              exact (Option.some.inj hother).symm
            rw [hsame', Option.elim_some]
          · exact absurd holdKey (hnone old hmem)
        · intro hrow
          exact .inr (.inl ⟨old, hmem, holdKey, hrow.symm⟩)
    · rw [if_neg hkey, List.append_nil, ← ih]
      constructor
      · rintro (⟨hmem, -⟩ | ⟨old, -, hsame, rfl⟩ | ⟨-, rfl⟩)
        · exact hmem
        · exact absurd (hsame.symm.trans (G.rowKey_again old a).symm) hkey
        · exact absurd (G.rowKey_first a).symm hkey
      · intro hmem
        exact .inl ⟨hmem, Ne.symm hkey⟩

theorem perm_rowKey_rows (items : List α) : ((G.rows items).map G.rowKey).Perm (items.map G.key).dedup :=
  (List.perm_ext_iff_of_nodup (nodup_rows items) (List.nodup_dedup _)).mpr fun k => by rw [mem_rowKey_rows, List.mem_dedup]

/-- There are as many rows as keys. -/
theorem length_rows (items : List α) : (G.rows items).length = (items.map G.key).dedup.length := by
  rw [← (perm_rowKey_rows items).length_eq, List.length_map]

theorem length_group (k : κ) (items : List α) : (G.group k items).length = (items.map G.key).count k := by
  rw [group, ← List.countP_eq_length_filter, List.count, List.countP_map]
  rfl

/-- Every item is in one group. -/
theorem sum_length_group (items : List α) :
    ((G.rows items).map fun row => (G.group (G.rowKey row) items).length).sum = items.length := by
  calc ((G.rows items).map fun row => (G.group (G.rowKey row) items).length).sum
      = (((G.rows items).map G.rowKey).map fun k => (items.map G.key).count k).sum := by
        rw [List.map_map]
        exact congrArg List.sum (List.map_congr_left fun row _ => length_group _ _)
    _ = ((items.map G.key).dedup.map fun k => (items.map G.key).count k).sum :=
        ((perm_rowKey_rows items).map _).sum_eq
    _ = (items.map G.key).length := List.sum_map_count_dedup_eq_length _
    _ = items.length := List.length_map _

end Gather

end Kmsrs
