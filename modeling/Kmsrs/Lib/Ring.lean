import Kmsrs.Lib.ArrayVec

/-! The books of a buffer that evicts its oldest entry to make room. Whatever was
put in has been taken out, is still held, or is missing; what is held is the end
of what was put in, and what was taken out came in that order. -/

namespace Kmsrs

namespace ArrayVec

variable {α : Type} {cap : ℕ}

/-- A push onto a full buffer costs the oldest item. -/
theorem pushEvicting_of_full {v : ArrayVec α cap} (x : α) {oldest : α} {rest : List α}
    (hitems : v.items = oldest :: rest) (hfull : v.items.length = cap) :
    (v.pushEvicting x).1.items = rest ++ [x] ∧ (v.pushEvicting x).2 = true := by
  obtain ⟨room, hpop, hrest⟩ := popFirst_cons hitems
  have hroom : room.items.length + 1 ≤ cap := by
    rw [hrest, ← hfull, hitems, List.length_cons]
  have hisFull : v.isFull = true := by
    rw [isFull, beq_iff_eq]
    exact hfull
  simp [pushEvicting, hisFull, hpop, tryPush_eq_some x hroom, hrest]

end ArrayVec

namespace Ring

variable {α : Type} {cap : ℕ} {put taken held : List α} {missing : ℕ}

/-- Of all that was put in, `held` is the latest; the older part holds what was
taken, in order, and `missing` more. -/
def Balanced (put taken held : List α) (missing : ℕ) : Prop :=
  ∃ older, put = older ++ held ∧ taken.Sublist older ∧ older.length = taken.length + missing

theorem balanced_nil : Balanced ([] : List α) [] [] 0 := ⟨[], rfl, .slnil, rfl⟩

theorem Balanced.push {v : ArrayVec α cap} (h : Balanced put taken v.items missing) (hcap : 0 < cap) (x : α) :
    Balanced (put ++ [x]) taken (v.pushEvicting x).1.items (missing + (v.pushEvicting x).2.toNat) := by
  obtain ⟨older, hput, htaken, hlen⟩ := h
  by_cases hroom : v.items.length < cap
  · rw [v.pushEvicting_of_lt x hroom]
    exact ⟨older, by simp [hput], htaken, hlen⟩
  · have hfull : v.items.length = cap := le_antisymm v.le_cap (Nat.le_of_not_lt hroom)
    obtain ⟨oldest, rest, hitems⟩ := List.exists_cons_of_length_pos (hfull ▸ hcap)
    obtain ⟨hitems', hlost⟩ := ArrayVec.pushEvicting_of_full x hitems hfull
    rw [hitems', hlost]
    refine ⟨older ++ [oldest], by simp [hput, hitems], htaken.trans (List.sublist_append_left _ _), ?_⟩
    rw [List.length_append, hlen]
    rfl

theorem Balanced.take {oldest : α} (h : Balanced put taken (oldest :: held) missing) :
    Balanced put (taken ++ [oldest]) held missing := by
  obtain ⟨older, hput, htaken, hlen⟩ := h
  refine ⟨older ++ [oldest], by simp [hput], htaken.append (List.Sublist.refl _), ?_⟩
  simp only [List.length_append, hlen, List.length_singleton]
  omega

theorem Balanced.length_put (h : Balanced put taken held missing) :
    put.length = taken.length + held.length + missing := by
  obtain ⟨older, hput, -, hlen⟩ := h
  rw [hput, List.length_append, hlen]
  omega

theorem Balanced.sublist (h : Balanced put taken held missing) : (taken ++ held).Sublist put := by
  obtain ⟨older, hput, htaken, -⟩ := h
  rw [hput]
  exact htaken.append (List.Sublist.refl held)

end Ring

end Kmsrs
