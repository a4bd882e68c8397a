import Kmsrs.Lib.Rows
import Mathlib.Data.List.Sort
import Mathlib.Data.List.Lex

/-! Tables in the order of a key. A binary search over a strictly increasing
table finds the entry of a key exactly when there is one; a map kept in the order
of its keys collects the values pushed under each of them. -/

namespace Kmsrs.Sorted

section Search

variable {α κ : Type*} [LinearOrder κ] (key : α → κ)

/-- Strictly increasing in its keys. -/
def Increasing (xs : List α) : Prop := (xs.map key).Pairwise (· < ·)

instance (xs : List α) : Decidable (Increasing key xs) := inferInstanceAs (Decidable (List.Pairwise _ _))

/-- The loop of a binary search. The place sought, if any, is one of the `size`
places from `base` on; `fuel` bounds the halvings. -/
def searchLoop (xs : List α) (k : κ) : (fuel base size : ℕ) → ℕ
  | 0, base, _ => base
  | fuel + 1, base, size =>
    if size ≤ 1 then base
    else
      let half := size / 2
      let mid := base + half
      searchLoop xs k fuel (if xs[mid]?.any fun x => k < key x then base else mid) (size - half)

/-- The index of an entry with the key, as the last comparison finds it. -/
def binarySearch (xs : List α) (k : κ) : Option ℕ :=
  let base := searchLoop key xs k xs.length 0 xs.length
  if xs[base]?.any fun x => key x = k then some base else none

/-- The entry with the key. -/
def lookup (xs : List α) (k : κ) : Option α := (binarySearch key xs k).bind fun index => xs[index]?

theorem searchLoop_map {β : Type*} (f : β → α) (xs : List β) (k : κ) (fuel base size : ℕ) :
    searchLoop key (xs.map f) k fuel base size = searchLoop (fun x => key (f x)) xs k fuel base size := by
  induction fuel generalizing base size with
  | zero => rfl
  | succ fuel ih => simp only [searchLoop, ih, List.getElem?_map, Option.any_map]

/-- Searching a table made row by row from another. -/
theorem lookup_map {β : Type*} (f : β → α) (xs : List β) (k : κ) :
    lookup key (xs.map f) k = (lookup (fun x => key (f x)) xs k).map f := by
  simp only [lookup, binarySearch, searchLoop_map, List.length_map, List.getElem?_map, Option.any_map]
  split_ifs <;> simp

variable {key} {xs : List α} {k : κ}

theorem Increasing.lt_iff_lt (h : Increasing key xs) {i j : ℕ} {x y : α} (hx : xs[i]? = some x)
    (hy : xs[j]? = some y) : key x < key y ↔ i < j := by
  have hmono : ∀ {i j : ℕ} {x y : α}, xs[i]? = some x → xs[j]? = some y → i < j → key x < key y := by
    intro i j x y hx hy hij
    obtain ⟨hi, rfl⟩ := List.getElem?_eq_some_iff.mp hx
    obtain ⟨hj, rfl⟩ := List.getElem?_eq_some_iff.mp hy
    have hsorted := List.pairwise_iff_getElem.mp h i j
    simp only [List.length_map, List.getElem_map] at hsorted
    exact hsorted hi hj hij
  constructor
  · intro hlt
    by_contra hle
    rcases Nat.lt_or_eq_of_le (Nat.le_of_not_lt hle) with hji | rfl
    · exact lt_asymm hlt (hmono hy hx hji)
    · rw [hx] at hy
      cases hy
      exact lt_irrefl _ hlt
  · exact hmono hx hy

/-- A key has one place. -/
theorem Increasing.place_unique (h : Increasing key xs) {i j : ℕ} {x y : α} (hx : xs[i]? = some x)
    (hy : xs[j]? = some y) (hkey : key x = key y) : i = j := by
  have hij := h.lt_iff_lt hx hy
  have hji := h.lt_iff_lt hy hx
  rw [hkey] at hij hji
  simp only [lt_self_iff_false, false_iff, not_lt] at hij hji
  omega

/-- A table is determined by its rows. -/
theorem Increasing.ext (h : Increasing key xs) {ys : List α} (h' : Increasing key ys) (hmem : ∀ x, x ∈ xs ↔ x ∈ ys) :
    xs = ys := by
  have hlt : ∀ {xs : List α}, Increasing key xs → xs.Pairwise fun a b => key a < key b := fun h => List.pairwise_map.mp h
  have hnodup : ∀ {xs : List α}, Increasing key xs → xs.Nodup := fun h =>
    (hlt h).imp fun hab => fun hsame => hab.ne (congrArg key hsame)
  refine ((List.perm_ext_iff_of_nodup (hnodup h) (hnodup h')).mpr hmem).eq_of_pairwise
    (fun a b _ _ hab hba => absurd hba (lt_asymm hab)) (hlt h) (hlt h')

/-- The place sought never leaves the window. -/
theorem Increasing.searchLoop_eq (h : Increasing key xs) {i : ℕ} {x : α} (hx : xs[i]? = some x)
    (fuel base size : ℕ) (hfuel : size ≤ fuel) (hbase : base ≤ i) (hi : i < base + size)
    (hlen : base + size ≤ xs.length) : searchLoop key xs (key x) fuel base size = i := by
  induction fuel generalizing base size with
  | zero => omega
  | succ fuel ih =>
    rw [searchLoop]
    split_ifs with hsize
    · omega
    · obtain ⟨y, hy⟩ : ∃ y, xs[base + size / 2]? = some y :=
        ⟨_, List.getElem?_eq_getElem (by omega)⟩
      have hside := h.lt_iff_lt hx hy
      simp only [hy, Option.any_some, decide_eq_true_eq]
      split_ifs with hlt
      · have hbefore := hside.mp hlt
        exact ih _ _ (by omega) hbase (by omega) (by omega)
      · have hfrom : ¬ i < base + size / 2 := fun hmid => hlt (hside.mpr hmid)
        exact ih _ _ (by omega) (by omega) (by omega) (by omega)

theorem Increasing.binarySearch_eq_some_iff (h : Increasing key xs) {i : ℕ} :
    binarySearch key xs k = some i ↔ ∃ x, xs[i]? = some x ∧ key x = k := by
  constructor
  · intro hfound
    rw [binarySearch] at hfound
    split_ifs at hfound with hany
    obtain rfl := Option.some.inj hfound
    obtain ⟨x, hx, hkey⟩ := (Option.any_eq_true ..).mp hany
    exact ⟨x, hx, by simpa using hkey⟩
  · rintro ⟨x, hx, rfl⟩
    have hi := (List.getElem?_eq_some_iff.mp hx).1
    have hplace := h.searchLoop_eq hx xs.length 0 xs.length le_rfl (Nat.zero_le _) (by omega) (by omega)
    simp [binarySearch, hplace, hx]

theorem Increasing.lookup_eq_some_iff (h : Increasing key xs) {x : α} :
    lookup key xs k = some x ↔ x ∈ xs ∧ key x = k := by
  rw [lookup, Option.bind_eq_some_iff]
  constructor
  · rintro ⟨i, hi, hx⟩
    obtain ⟨y, hy, hkey⟩ := h.binarySearch_eq_some_iff.mp hi
    obtain rfl := Option.some.inj (hx.symm.trans hy)
    exact ⟨List.mem_of_getElem? hx, hkey⟩
  · rintro ⟨hmem, hkey⟩
    obtain ⟨i, hi⟩ := List.mem_iff_getElem?.mp hmem
    exact ⟨i, h.binarySearch_eq_some_iff.mpr ⟨x, hi, hkey⟩, hi⟩

theorem Increasing.lookup_eq_none_iff (h : Increasing key xs) :
    lookup key xs k = none ↔ ∀ x ∈ xs, key x ≠ k := by
  rw [Option.eq_none_iff_forall_ne_some]
  constructor
  · intro hnone x hx hkey
    exact hnone x (h.lookup_eq_some_iff.mpr ⟨hx, hkey⟩)
  · intro hnone x hfound
    obtain ⟨hx, hkey⟩ := h.lookup_eq_some_iff.mp hfound
    exact hnone x hx hkey

end Search

/-- Where no key comes twice, searching from the front finds the row of a key. -/
theorem find?_key_eq_some_iff {α κ : Type*} [DecidableEq κ] {key : α → κ} {xs : List α} (h : (xs.map key).Nodup) {k : κ}
    {x : α} : (xs.find? fun y => key y = k) = some x ↔ x ∈ xs ∧ key x = k := by
  constructor
  · intro hfound
    exact ⟨List.mem_of_find?_eq_some hfound, by simpa using List.find?_some hfound⟩
  · rintro ⟨hx, rfl⟩
    induction xs with
    | nil => cases hx
    | cons y ys ih =>
      obtain ⟨hfirst, hrest⟩ := List.nodup_cons.mp h
      rcases List.mem_cons.mp hx with rfl | hlater
      · simp
      · have hother : key y ≠ key x := fun hsame => hfirst (hsame ▸ List.mem_map_of_mem hlater)
        simpa [hother] using ih hrest hlater

section Groups

variable {κ ρ ν : Type*} [DecidableEq κ] [LinearOrder ρ] (rank : κ → ρ)

/-- Change the value under a key of a map in the order of `rank`. -/
def upsert (k : κ) (f : Option ν → ν) : List (κ × ν) → List (κ × ν)
  | [] => [(k, f none)]
  | (k', v) :: rest =>
    if rank k < rank k' then (k, f none) :: (k', v) :: rest
    else if k = k' then (k, f (some v)) :: rest
    else (k', v) :: upsert k f rest

/-- Every value pushed under its key, in the order of the pushes. -/
def groups (pairs : List (κ × ν)) : List (κ × List ν) :=
  pairs.foldl (fun map pair => upsert rank pair.1 (fun values => values.getD [] ++ [pair.2]) map) []

variable {rank}

theorem key_mem_of_mem_upsert {k : κ} {f : Option ν → ν} {map : List (κ × ν)} {entry : κ × ν}
    (h : entry ∈ upsert rank k f map) : entry.1 = k ∨ entry ∈ map := by
  induction map with
  | nil => simp_all [upsert]
  | cons first rest ih =>
    obtain ⟨k', v⟩ := first
    rw [upsert] at h
    split_ifs at h with hlt heq
    · rcases List.mem_cons.mp h with rfl | hmem
      · exact .inl rfl
      · exact .inr hmem
    · rcases List.mem_cons.mp h with rfl | hmem
      · exact .inl rfl
      · exact .inr (List.mem_cons_of_mem _ hmem)
    · rcases List.mem_cons.mp h with rfl | hmem
      · exact .inr List.mem_cons_self
      · exact (ih hmem).imp_right (List.mem_cons_of_mem _)

theorem increasing_upsert (hrank : Function.Injective rank) (k : κ) (f : Option ν → ν) {map : List (κ × ν)}
    (h : Increasing (fun entry => rank entry.1) map) :
    Increasing (fun entry => rank entry.1) (upsert rank k f map) := by
  induction map with
  | nil => simp [upsert, Increasing]
  | cons first rest ih =>
    obtain ⟨k', v⟩ := first
    obtain ⟨hfirst, hrest⟩ := List.pairwise_cons.mp h
    rw [upsert]
    split_ifs with hlt heq
    · refine List.pairwise_cons.mpr ⟨?_, h⟩
      intro r hr
      rcases List.mem_cons.mp hr with rfl | hlater
      · exact hlt
      · exact hlt.trans (hfirst r hlater)
    · subst heq
      exact h
    · refine List.pairwise_cons.mpr ⟨?_, ih hrest⟩
      intro r hr
      obtain ⟨entry, hentry, rfl⟩ := List.mem_map.mp hr
      rcases key_mem_of_mem_upsert hentry with hkey | hmem
      · rw [hkey]
        exact lt_of_le_of_ne (not_lt.mp hlt) fun hsame => heq (hrank hsame).symm
      · exact hfirst _ (List.mem_map_of_mem hmem)

/-- The value under a key. -/
def valueOf (map : List (κ × ν)) (k : κ) : Option ν := (map.find? fun entry => entry.1 = k).map Prod.snd

@[simp] theorem valueOf_nil (k : κ) : valueOf ([] : List (κ × ν)) k = none := rfl

@[simp] theorem valueOf_cons (entry : κ × ν) (rest : List (κ × ν)) (k : κ) :
    valueOf (entry :: rest) k = if entry.1 = k then some entry.2 else valueOf rest k := by
  by_cases h : entry.1 = k <;> simp [valueOf, h]

theorem valueOf_eq_none {map : List (κ × ν)} {k : κ} (h : ∀ entry ∈ map, entry.1 ≠ k) : valueOf map k = none := by
  have hnone : map.find? (fun entry => entry.1 = k) = none := List.find?_eq_none.mpr (by simpa using h)
  rw [valueOf, hnone]
  rfl

theorem valueOf_eq_some_iff {map : List (κ × ν)} (h : (map.map Prod.fst).Nodup) {k : κ} {v : ν} :
    valueOf map k = some v ↔ (k, v) ∈ map := by
  induction map with
  | nil => simp
  | cons entry rest ih =>
    obtain ⟨hfirst, hrest⟩ := List.nodup_cons.mp h
    rw [valueOf_cons, List.mem_cons]
    split_ifs with hk
    · have hnot : (k, v) ∉ rest := fun hmem => hfirst (hk ▸ List.mem_map_of_mem hmem)
      simp [hnot, Prod.ext_iff, hk, eq_comm]
    · rw [ih hrest]
      simp [Prod.ext_iff, Ne.symm hk]

/-- Without one key the map holds the others. -/
theorem valueOf_erase (map : List (κ × ν)) {k g : κ} (h : g ≠ k) :
    valueOf (map.filter fun entry => entry.1 ≠ k) g = valueOf map g := by
  induction map with
  | nil => rfl
  | cons entry map ih =>
    rw [List.filter_cons]
    split_ifs with hkept
    · rw [valueOf_cons, valueOf_cons, ih]
    · have hk : entry.1 = k := by simpa using hkept
      rw [ih, valueOf_cons, if_neg (hk ▸ Ne.symm h)]

/-- Searching the map by halving reads the same values. -/
theorem Increasing.lookup_valueOf (hrank : Function.Injective rank) {map : List (κ × ν)}
    (h : Increasing (fun entry => rank entry.1) map) (k : κ) :
    (lookup (fun entry => rank entry.1) map (rank k)).map Prod.snd = valueOf map k := by
  cases hfound : lookup (fun entry => rank entry.1) map (rank k) with
  | none =>
    have hnone := h.lookup_eq_none_iff.mp hfound
    exact (valueOf_eq_none fun entry hentry hkey => hnone entry hentry (congrArg rank hkey)).symm
  | some entry =>
    obtain ⟨hentry, hkey⟩ := h.lookup_eq_some_iff.mp hfound
    obtain ⟨i, hi⟩ := List.mem_iff_getElem?.mp hentry
    cases hfirst : map.find? fun entry => entry.1 = k with
    | none =>
      have hnone := List.find?_eq_none.mp hfirst entry hentry
      exact absurd (hrank hkey) (by simpa using hnone)
    | some first =>
      obtain ⟨j, hj⟩ := List.mem_iff_getElem?.mp (List.mem_of_find?_eq_some hfirst)
      have hsame : first.1 = k := by simpa using List.find?_some hfirst
      obtain rfl := h.place_unique hi hj (hkey.trans (congrArg rank hsame.symm))
      obtain rfl := Option.some.inj (hi.symm.trans hj)
      simp [valueOf, hfirst]

/-- The key's value is changed, or begun, and no other is. -/
theorem valueOf_upsert (k : κ) (f : Option ν → ν) {map : List (κ × ν)}
    (h : Increasing (fun entry => rank entry.1) map) (g : κ) :
    valueOf (upsert rank k f map) g = if g = k then some (f (valueOf map k)) else valueOf map g := by
  induction map with
  | nil => simp [upsert, eq_comm]
  | cons first rest ih =>
    obtain ⟨k', v⟩ := first
    obtain ⟨hfirst, hrest⟩ := List.pairwise_cons.mp h
    rw [upsert]
    by_cases hlt : rank k < rank k'
    · have hnone : valueOf ((k', v) :: rest) k = none := by
        refine valueOf_eq_none fun entry hentry hkey => ?_
        rcases List.mem_cons.mp hentry with rfl | hlater
        · exact lt_irrefl _ (hkey ▸ hlt)
        · have hafter := hfirst _ (List.mem_map_of_mem hlater)
          rw [hkey] at hafter
          exact lt_asymm hlt hafter
      rw [if_pos hlt, valueOf_cons, hnone]
      by_cases hg : g = k
      · rw [if_pos hg.symm, if_pos hg]
      · rw [if_neg (Ne.symm hg), if_neg hg]
    · rw [if_neg hlt]
      by_cases heq : k = k'
      · subst heq
        by_cases hg : g = k
        · simp [hg]
        · simp [hg, Ne.symm hg]
      · rw [if_neg heq, valueOf_cons, ih hrest]
        by_cases hg : g = k
        · subst hg
          simp [Ne.symm heq]
        · simp [hg]

theorem increasing_groups (hrank : Function.Injective rank) (pairs : List (κ × ν)) :
    Increasing (fun entry => rank entry.1) (groups rank pairs) := by
  induction pairs using List.reverseRecOn with
  | nil => simp [groups, Increasing]
  | append_singleton pairs pair ih =>
    rw [groups, List.foldl_append]
    exact increasing_upsert hrank _ _ ih

/-- A key holds exactly what was pushed under it. -/
theorem valueOf_groups (hrank : Function.Injective rank) (pairs : List (κ × ν)) (g : κ) :
    (valueOf (groups rank pairs) g).getD [] = (pairs.filter fun pair => pair.1 = g).map Prod.snd := by
  induction pairs using List.reverseRecOn with
  | nil => simp [groups]
  | append_singleton pairs pair ih =>
    have hbefore := increasing_groups hrank pairs
    have hstep : groups rank (pairs ++ [pair]) =
        upsert rank pair.1 (fun values => values.getD [] ++ [pair.2]) (groups rank pairs) := by
      simp [groups]
    rw [hstep, valueOf_upsert _ _ hbefore, List.filter_append, List.map_append]
    split_ifs with hg
    · subst hg
      simp [ih]
    · simp [ih, Ne.symm hg]

end Groups

section Repeats

variable {α : Type*} [DecidableEq α]

/-- One of each run of equal neighbours. -/
def dropRepeats : List α → List α
  | [] => []
  | [x] => [x]
  | x :: y :: rest => if x = y then dropRepeats (y :: rest) else x :: dropRepeats (y :: rest)

@[simp] theorem mem_dropRepeats (a : α) (xs : List α) : a ∈ dropRepeats xs ↔ a ∈ xs := by
  induction xs using dropRepeats.induct with
  | case1 => simp [dropRepeats]
  | case2 x => simp [dropRepeats]
  | case3 x rest ih =>
    rw [dropRepeats, if_pos rfl, ih]
    simp
  | case4 x y rest hne ih =>
    rw [dropRepeats, if_neg hne, List.mem_cons, ih]
    simp

/-- A sorted list without its repeats is in increasing order. -/
theorem increasing_dropRepeats {κ : Type*} [LinearOrder κ] {key : α → κ} (hkey : Function.Injective key) {xs : List α}
    (h : (xs.map key).Pairwise (· ≤ ·)) : Increasing key (dropRepeats xs) := by
  induction xs using dropRepeats.induct with
  | case1 => exact .nil
  | case2 x => exact List.pairwise_singleton ..
  | case3 x rest ih =>
    rw [dropRepeats, if_pos rfl]
    exact ih (List.pairwise_cons.mp h).2
  | case4 x y rest hne ih =>
    obtain ⟨hfirst, hrest⟩ := List.pairwise_cons.mp h
    have hlt : key x < key y := lt_of_le_of_ne (hfirst _ List.mem_cons_self) (hkey.ne hne)
    rw [dropRepeats, if_neg hne]
    refine List.pairwise_cons.mpr ⟨?_, ih hrest⟩
    intro k hk
    obtain ⟨z, hz, rfl⟩ := List.mem_map.mp hk
    rcases List.mem_cons.mp ((mem_dropRepeats z _).mp hz) with rfl | hlater
    · exact hlt
    · exact hlt.trans_le ((List.pairwise_cons.mp hrest).1 _ (List.mem_map_of_mem hlater))

end Repeats

end Kmsrs.Sorted
