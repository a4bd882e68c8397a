import Kmsrs.Lib.Rows
import Mathlib.Data.List.MinMax
import Mathlib.Data.List.Nodup

/-! A bounded table of keyed slots. A key's slot is found by scanning; a new key
takes a free place, or the place of the first slot with the smallest stamp when
the table is full. With distinct keys such a table is a finite map: storing under
one key leaves every other as it was, apart from the one that was evicted. -/

namespace Kmsrs.Slots

variable {β κ : Type*} [DecidableEq κ] (key : β → κ) (stamp : β → ℕ) (bound : ℕ)

def lookup (k : κ) (slots : List β) : Option β := slots.find? fun b => key b = k

/-- The index of the first slot with the smallest stamp. -/
def stalest (slots : List β) : ℕ :=
  ((slots.zipIdx.argmin fun slot => stamp slot.1).map Prod.snd).getD 0

/-- The index of the key's slot, and the table with that slot in it. -/
def slotFor (fresh : β) (slots : List β) : ℕ × List β :=
  match slots.findIdx? fun b => key b = key fresh with
  | some position => (position, slots)
  | none =>
    if slots.length < bound then (slots.length, slots ++ [fresh])
    else (stalest stamp slots, slots.set (stalest stamp slots) fresh)

/-- The slot that gives way to a new key. -/
def evicted (k : κ) (slots : List β) : Option β :=
  if (lookup key k slots).isNone ∧ bound ≤ slots.length then slots[stalest stamp slots]? else none

/-- The table once the key's slot holds `b`. -/
def store (fresh : β) (slots : List β) (b : β) : List β :=
  (slotFor key stamp bound fresh slots).2.set (slotFor key stamp bound fresh slots).1 b

section Stalest

variable {slots : List β}

theorem getElem?_stalest (h : slots ≠ []) :
    ∃ victim, slots[stalest stamp slots]? = some victim ∧ ∀ b ∈ slots, stamp victim ≤ stamp b := by
  cases hmin : slots.zipIdx.argmin fun slot => stamp slot.1 with
  | none => simp [h] at hmin
  | some slot =>
    obtain ⟨victim, i⟩ := slot
    have hi : slots[i]? = some victim :=
      List.mk_mem_zipIdx_iff_getElem?.mp (List.argmin_mem hmin)
    refine ⟨victim, by simp [stalest, hmin, hi], ?_⟩
    intro b hb
    obtain ⟨j, hj⟩ := List.mem_iff_getElem?.mp hb
    have hmem : (b, j) ∈ slots.zipIdx := List.mk_mem_zipIdx_iff_getElem?.mpr hj
    exact List.le_of_mem_argmin (f := fun slot : β × ℕ => stamp slot.1) hmem hmin

end Stalest

section Lookup

variable {key} {k : κ} {slots : List β} {b : β}

theorem lookup_eq_none_iff : lookup key k slots = none ↔ k ∉ slots.map key := by
  simp [lookup, List.find?_eq_none]

theorem mem_of_lookup (h : lookup key k slots = some b) : b ∈ slots ∧ key b = k :=
  ⟨List.mem_of_find?_eq_some h, by simpa using List.find?_some h⟩

theorem lookup_eq_some_iff (hnodup : (slots.map key).Nodup) :
    lookup key k slots = some b ↔ b ∈ slots ∧ key b = k := by
  refine ⟨mem_of_lookup, ?_⟩
  rintro ⟨hb, hk⟩
  cases hlook : lookup key k slots with
  | none => exact absurd (hk ▸ List.mem_map_of_mem hb) (lookup_eq_none_iff.mp hlook)
  | some c =>
    obtain ⟨hc, hck⟩ := mem_of_lookup hlook
    rw [List.inj_on_of_nodup_map hnodup hc hb (hck.trans hk.symm)]

omit [DecidableEq κ] in
/-- Replacing a slot touches its own key alone. -/
theorem mem_set_iff {i : ℕ} {old new x : β} (hnodup : (slots.map key).Nodup)
    (hi : slots[i]? = some old) : x ∈ slots.set i new ↔ x = new ∨ x ∈ slots ∧ key x ≠ key old := by
  obtain ⟨hlt, hold⟩ := List.getElem?_eq_some_iff.mp hi
  constructor
  · intro hx
    obtain ⟨j, hj⟩ := List.mem_iff_getElem?.mp hx
    by_cases hij : i = j
    · subst hij
      rw [List.getElem?_set_self hlt] at hj
      exact .inl (Option.some.inj hj).symm
    · rw [List.getElem?_set_ne hij] at hj
      refine .inr ⟨List.mem_of_getElem? hj, fun hk => hij ?_⟩
      have hmap : (slots.map key)[i]? = (slots.map key)[j]? := by simp [hi, hj, hk]
      exact (List.getElem?_inj (by simpa using hlt) hnodup).mp hmap
  · rintro (rfl | ⟨hx, hne⟩)
    · exact List.mem_set hlt x
    · obtain ⟨j, hj⟩ := List.mem_iff_getElem?.mp hx
      have hij : i ≠ j := by
        rintro rfl
        rw [hi] at hj
        exact hne (by rw [Option.some.inj hj])
      exact List.mem_of_getElem? (by rw [List.getElem?_set_ne hij, hj])

end Lookup

section Store

variable {slots : List β} {fresh b x : β}

/-- What finding a slot can do. -/
theorem slotFor_cases (hbound : 0 < bound) (fresh : β) (slots : List β) :
    (∃ i old, slots[i]? = some old ∧ lookup key (key fresh) slots = some old ∧
      slotFor key stamp bound fresh slots = (i, slots)) ∨
    (lookup key (key fresh) slots = none ∧ slots.length < bound ∧
      slotFor key stamp bound fresh slots = (slots.length, slots ++ [fresh])) ∨
    (∃ i victim, slots[i]? = some victim ∧ lookup key (key fresh) slots = none ∧
      evicted key stamp bound (key fresh) slots = some victim ∧
      slotFor key stamp bound fresh slots = (i, slots.set i fresh)) := by
  cases hfind : slots.findIdx? fun c => key c = key fresh with
  | some i =>
    left
    obtain ⟨hlt, hidx⟩ := List.findIdx?_eq_some_iff_findIdx_eq.mp hfind
    have hlook : lookup key (key fresh) slots = slots[i]? := by
      rw [lookup, List.find?_eq_getElem?_findIdx, hidx]
    have hi : slots[i]? = some slots[i] := List.getElem?_eq_getElem hlt
    exact ⟨i, slots[i], hi, hlook.trans hi, by simp [slotFor, hfind]⟩
  | none =>
    right
    have hlook : lookup key (key fresh) slots = none := by
      rw [lookup_eq_none_iff]
      simpa using List.findIdx?_eq_none_iff.mp hfind
    by_cases hroom : slots.length < bound
    · exact .inl ⟨hlook, hroom, by simp [slotFor, hfind, hroom]⟩
    · right
      have hne : slots ≠ [] := by
        rintro rfl
        exact hroom hbound
      obtain ⟨victim, hvictim, -⟩ := getElem?_stalest stamp hne
      refine ⟨stalest stamp slots, victim, hvictim, hlook, ?_, ?_⟩
      · simp [evicted, hlook, Nat.le_of_not_lt hroom, hvictim]
      · simp [slotFor, hfind, hroom]

/-- The slot found is the key's own, or a fresh one. -/
theorem getElem?_slotFor (hbound : 0 < bound) (fresh : β) (slots : List β) :
    (slotFor key stamp bound fresh slots).2[(slotFor key stamp bound fresh slots).1]? =
      some ((lookup key (key fresh) slots).getD fresh) := by
  obtain ⟨i, old, hi, hlook, heq⟩ | ⟨hlook, -, heq⟩ | ⟨i, victim, hi, hlook, -, heq⟩ :=
    slotFor_cases key stamp bound hbound fresh slots
  · rw [heq, hlook, hi, Option.getD_some]
  · rw [heq, hlook, List.getElem?_concat_length, Option.getD_none]
  · have hlt := (List.getElem?_eq_some_iff.mp hi).1
    rw [heq, hlook, List.getElem?_set_self hlt, Option.getD_none]

variable {key stamp bound}

theorem mem_of_evicted {k : κ} (h : evicted key stamp bound k slots = some b) : b ∈ slots := by
  rw [evicted] at h
  split_ifs at h
  exact List.mem_of_getElem? h

/-- The evicted slot has the smallest stamp of a full table that lacks the key. -/
theorem evicted_spec {k : κ} (h : evicted key stamp bound k slots = some b) :
    b ∈ slots ∧ lookup key k slots = none ∧ bound ≤ slots.length ∧
      ∀ c ∈ slots, stamp b ≤ stamp c := by
  have hmem := mem_of_evicted h
  rw [evicted] at h
  split_ifs at h with hcond
  obtain ⟨hnone, hfull⟩ := hcond
  obtain ⟨victim, hvictim, hleast⟩ := getElem?_stalest stamp (List.ne_nil_of_mem hmem)
  obtain rfl : victim = b := Option.some.inj (hvictim.symm.trans h)
  exact ⟨hmem, Option.isNone_iff_eq_none.mp hnone, hfull, hleast⟩

theorem evicted_isSome {k : κ} (hbound : 0 < bound) (hnone : lookup key k slots = none)
    (hfull : bound ≤ slots.length) : (evicted key stamp bound k slots).isSome := by
  have hne : slots ≠ [] := List.ne_nil_of_length_pos (by omega)
  obtain ⟨victim, hvictim, -⟩ := getElem?_stalest stamp hne
  simp [evicted, hnone, hfull, hvictim]

theorem evicted_of_lookup {k : κ} (h : lookup key k slots = some b) :
    evicted key stamp bound k slots = none := by
  simp [evicted, h]

theorem evicted_of_lt {k : κ} (h : slots.length < bound) : evicted key stamp bound k slots = none := by
  simp [evicted, Nat.not_le_of_lt h]

/-- Storing under a key replaces its slot and drops the evicted one. -/
theorem mem_store_iff (hbound : 0 < bound) (hnodup : (slots.map key).Nodup) :
    x ∈ store key stamp bound fresh slots b ↔
      x = b ∨ x ∈ slots ∧ key x ≠ key fresh ∧ evicted key stamp bound (key fresh) slots ≠ some x := by
  obtain ⟨i, old, hi, hlook, heq⟩ | ⟨hlook, hroom, heq⟩ | ⟨i, victim, hi, hlook, hevict, heq⟩ :=
    slotFor_cases key stamp bound hbound fresh slots
  · have hkey := (mem_of_lookup hlook).2
    simp [store, heq, mem_set_iff hnodup hi, hkey, evicted_of_lookup hlook]
  · have hnew : ∀ y ∈ slots, key y ≠ key fresh := by
      simpa using lookup_eq_none_iff.mp hlook
    have hset : (slots ++ [fresh]).set slots.length b = slots ++ [b] := by simp
    simp only [store, heq, hset, List.mem_append, List.mem_singleton, evicted_of_lt hroom]
    constructor
    · rintro (hx | hx)
      · exact .inr ⟨hx, hnew x hx, by simp⟩
      · exact .inl hx
    · rintro (hx | ⟨hx, -⟩)
      · exact .inr hx
      · exact .inl hx
  · have hnew : ∀ y ∈ slots, key y ≠ key fresh := by
      simpa using lookup_eq_none_iff.mp hlook
    have hsame : ∀ y ∈ slots, key y ≠ key victim ↔ some victim ≠ some y := by
      intro y hy
      rw [ne_eq, ne_eq, Option.some.injEq, eq_comm (a := victim)]
      exact not_congr ⟨List.inj_on_of_nodup_map hnodup hy (List.mem_of_getElem? hi), congrArg key⟩
    simp only [store, heq, List.set_set, mem_set_iff hnodup hi, hevict]
    refine or_congr_right ⟨?_, ?_⟩
    · rintro ⟨hx, hne⟩
      exact ⟨hx, hnew x hx, (hsame x hx).mp hne⟩
    · rintro ⟨hx, -, hne⟩
      exact ⟨hx, (hsame x hx).mpr hne⟩

theorem nodup_store (hbound : 0 < bound) (hnodup : (slots.map key).Nodup) (hb : key b = key fresh) :
    ((store key stamp bound fresh slots b).map key).Nodup := by
  obtain ⟨i, old, hi, hlook, heq⟩ | ⟨hlook, hroom, heq⟩ | ⟨i, victim, hi, hlook, hevict, heq⟩ :=
    slotFor_cases key stamp bound hbound fresh slots
  · have hkey := (mem_of_lookup hlook).2
    obtain ⟨hlt, hold⟩ := List.getElem?_eq_some_iff.mp hi
    have hsame : (slots.map key).set i (key b) = slots.map key := by
      have hlt' : i < (slots.map key).length := by simpa using hlt
      have hat : (slots.map key)[i] = key b := by simp [hold, hkey, hb]
      rw [← hat, List.set_getElem_self]
    simpa [store, heq, List.map_set, hsame] using hnodup
  · have hset : (slots ++ [fresh]).set slots.length b = slots ++ [b] := by simp
    have hnew := lookup_eq_none_iff.mp hlook
    rw [store, heq, hset, List.map_append, List.nodup_append]
    refine ⟨hnodup, by simp, ?_⟩
    rintro k hk _ hb' rfl
    simp only [List.map_cons, List.map_nil, List.mem_singleton] at hb'
    exact hnew (hb ▸ hb' ▸ hk)
  · rw [store, heq, List.set_set, List.map_set]
    exact hnodup.set (hb ▸ lookup_eq_none_iff.mp hlook)

theorem length_store_le (hbound : 0 < bound) (hlen : slots.length ≤ bound) :
    (store key stamp bound fresh slots b).length ≤ bound := by
  obtain ⟨i, old, -, -, heq⟩ | ⟨-, hroom, heq⟩ | ⟨i, victim, -, -, -, heq⟩ :=
    slotFor_cases key stamp bound hbound fresh slots
  · simpa [store, heq] using hlen
  · simpa [store, heq] using hroom
  · simpa [store, heq] using hlen

theorem length_store_le_succ (hbound : 0 < bound) :
    (store key stamp bound fresh slots b).length ≤ slots.length + 1 := by
  obtain ⟨i, old, -, -, heq⟩ | ⟨-, -, heq⟩ | ⟨i, victim, -, -, -, heq⟩ :=
    slotFor_cases key stamp bound hbound fresh slots
  · simp [store, heq]
  · simp [store, heq]
  · simp [store, heq]

theorem lookup_store_self (hbound : 0 < bound) (hnodup : (slots.map key).Nodup)
    (hb : key b = key fresh) :
    lookup key (key fresh) (store key stamp bound fresh slots b) = some b := by
  rw [lookup_eq_some_iff (nodup_store hbound hnodup hb), mem_store_iff hbound hnodup]
  exact ⟨.inl rfl, hb⟩

/-- No other key is touched, apart from the evicted one. -/
theorem lookup_store_of_ne {k : κ} (hbound : 0 < bound) (hnodup : (slots.map key).Nodup)
    (hb : key b = key fresh) (hk : k ≠ key fresh) :
    lookup key k (store key stamp bound fresh slots b) =
      if (evicted key stamp bound (key fresh) slots).map key = some k then none
      else lookup key k slots := by
  ext c
  rw [lookup_eq_some_iff (nodup_store hbound hnodup hb), mem_store_iff hbound hnodup]
  split_ifs with hevict
  · obtain ⟨victim, hvictim, hvk⟩ := Option.map_eq_some_iff.mp hevict
    have hmem := mem_of_evicted hvictim
    constructor
    · rintro ⟨rfl | ⟨hc, -, hne⟩, hck⟩
      · exact absurd (hck.symm.trans hb) hk
      · have heq := List.inj_on_of_nodup_map hnodup hc hmem (hck.trans hvk.symm)
        exact absurd (heq ▸ hvictim) hne
    · simp
  · rw [lookup_eq_some_iff hnodup]
    constructor
    · rintro ⟨rfl | ⟨hc, -⟩, hck⟩
      · exact absurd (hck.symm.trans hb) hk
      · exact ⟨hc, hck⟩
    · rintro ⟨hc, hck⟩
      refine ⟨.inr ⟨hc, hck ▸ hk, ?_⟩, hck⟩
      intro hc'
      exact hevict (by simp [hc', hck])

end Store

end Kmsrs.Slots
