import Kmsrs.Lib.Rows

/-! A vector of bounded capacity. The bound is a field, so no operation can
build an over-full one; the operations that might exceed it say so instead of
truncating. -/

namespace Kmsrs

/-- At most `cap` items, in order. -/
structure ArrayVec (α : Type) (cap : ℕ) where
  items : List α
  le_cap : items.length ≤ cap
  deriving DecidableEq

namespace ArrayVec

variable {α : Type} {cap : ℕ}

@[ext] theorem ext {v w : ArrayVec α cap} (h : v.items = w.items) : v = w := by
  cases v; cases w; simpa using h

def empty : ArrayVec α cap := ⟨[], Nat.zero_le cap⟩

def length (v : ArrayVec α cap) : ℕ := v.items.length

def isFull (v : ArrayVec α cap) : Bool := v.items.length == cap

/-- Append one item, or report that there is no room. -/
def tryPush (v : ArrayVec α cap) (x : α) : Option (ArrayVec α cap) :=
  if h : v.items.length + 1 ≤ cap then some ⟨v.items ++ [x], by simpa using h⟩ else none

/-- Append all of `xs`, or nothing. -/
def tryExtendFromSlice (v : ArrayVec α cap) (xs : List α) : Option (ArrayVec α cap) :=
  if h : v.items.length + xs.length ≤ cap then some ⟨v.items ++ xs, by simpa using h⟩ else none

/-- Take the oldest item out. -/
def popFirst (v : ArrayVec α cap) : Option (α × ArrayVec α cap) :=
  match h : v.items with
  | [] => none
  | x :: xs => some (x, ⟨xs, by have := v.le_cap; simp [h] at this; omega⟩)

/-- Keep the items that satisfy `p`, in order. -/
def retain (v : ArrayVec α cap) (p : α → Bool) : ArrayVec α cap :=
  ⟨v.items.filter p, (List.length_filter_le p v.items).trans v.le_cap⟩

/-- All but the first `n` items. -/
def drop (v : ArrayVec α cap) (n : ℕ) : ArrayVec α cap :=
  ⟨v.items.drop n, by rw [List.length_drop]; exact (Nat.sub_le _ _).trans v.le_cap⟩

/-- Append, evicting the oldest item when full; says whether anything was lost. -/
def pushEvicting (v : ArrayVec α cap) (x : α) : ArrayVec α cap × Bool :=
  let (room, evicted) :=
    if v.isFull then
      match v.popFirst with
      | some (_, rest) => (rest, true)
      | none => (v, false)
    else (v, false)
  match room.tryPush x with
  | none => (room, true)
  | some longer => (longer, evicted)

@[simp] theorem items_empty : (empty : ArrayVec α cap).items = [] := rfl

@[simp] theorem items_drop (v : ArrayVec α cap) (n : ℕ) : (v.drop n).items = v.items.drop n := rfl

@[simp] theorem items_retain (v : ArrayVec α cap) (p : α → Bool) :
    (v.retain p).items = v.items.filter p := rfl

theorem tryPush_eq_some {v : ArrayVec α cap} (x : α) (h : v.items.length + 1 ≤ cap) :
    v.tryPush x = some ⟨v.items ++ [x], by simpa using h⟩ := dif_pos h

theorem tryPush_eq_none {v : ArrayVec α cap} (x : α) (h : cap < v.items.length + 1) :
    v.tryPush x = none := dif_neg (by omega)

theorem tryExtendFromSlice_eq_some {v : ArrayVec α cap} {xs : List α}
    (h : v.items.length + xs.length ≤ cap) :
    v.tryExtendFromSlice xs = some ⟨v.items ++ xs, by simpa using h⟩ := dif_pos h

theorem tryExtendFromSlice_eq_none {v : ArrayVec α cap} {xs : List α}
    (h : cap < v.items.length + xs.length) : v.tryExtendFromSlice xs = none := dif_neg (by omega)

theorem tryExtendFromSlice_isNone {v : ArrayVec α cap} {xs : List α} :
    v.tryExtendFromSlice xs = none ↔ cap < v.items.length + xs.length := by
  unfold tryExtendFromSlice
  split
  · simp; omega
  · simp; omega

theorem items_of_tryExtendFromSlice {v w : ArrayVec α cap} {xs : List α}
    (h : v.tryExtendFromSlice xs = some w) : w.items = v.items ++ xs := by
  unfold tryExtendFromSlice at h
  split at h
  · cases h; rfl
  · cases h

/-- Copying out of a buffer of the same capacity always fits. -/
theorem tryExtendFromSlice_empty {xs : List α} (h : xs.length ≤ cap) :
    (empty : ArrayVec α cap).tryExtendFromSlice xs = some ⟨xs, h⟩ := by
  simp [tryExtendFromSlice, h]

theorem popFirst_nil {v : ArrayVec α cap} (h : v.items = []) : v.popFirst = none := by
  unfold popFirst
  split
  · rfl
  · simp_all

theorem popFirst_cons {v : ArrayVec α cap} {x : α} {xs : List α} (h : v.items = x :: xs) :
    ∃ w : ArrayVec α cap, v.popFirst = some (x, w) ∧ w.items = xs := by
  obtain ⟨items, hcap⟩ := v
  subst h
  exact ⟨_, rfl, rfl⟩

/-- A push with room evicts nothing. -/
theorem pushEvicting_of_lt {v : ArrayVec α cap} (x : α) (h : v.items.length < cap) :
    v.pushEvicting x = (⟨v.items ++ [x], by simpa using h⟩, false) := by
  have hfull : v.isFull = false := by
    rw [isFull, beq_eq_false_iff_ne]
    omega
  simp [pushEvicting, hfull, tryPush_eq_some x h]

end ArrayVec

end Kmsrs
