import Kmsrs.Lib.Rows
import Mathlib.Data.List.DropRight
import Mathlib.Data.Finset.Card

/-! Bounded memory of the most recent sightings. A sighting has a key and a time.
`latest` keeps the last sighting of every key, in the order of these sightings;
`held` is what a memory with an expiry period and a capacity should still hold.
When the times never decrease, dropping stale entries from the front removes all
of them, and renewing or evicting one entry at a time keeps a list equal to
`held`. -/

namespace Kmsrs.Recency

section Aging

variable {ε : Type*} {live : ε → Bool} {entries : List ε}

/-- Everything after a live entry is live. -/
def Aged (live : ε → Bool) (entries : List ε) : Prop :=
  entries.Pairwise fun a b => live a → live b

theorem Aged.dropWhile (h : Aged live entries) :
    entries.dropWhile (fun e => !live e) = entries.filter live := by
  induction entries with
  | nil => rfl
  | cons e rest ih =>
    obtain ⟨hhead, hrest⟩ := List.pairwise_cons.mp h
    cases hlive : live e with
    | false => simpa [hlive] using ih hrest
    | true =>
      have hall : ∀ x ∈ rest, live x = true := fun x hx => hhead x hx hlive
      rw [List.dropWhile_cons_of_neg (by simp [hlive]), List.filter_cons_of_pos hlive,
        List.filter_eq_self.mpr hall]

/-- Pop the front until it is live, counting what is popped. -/
def popStale {γ : Type*} (live : ε → Bool) (count : γ → γ) : γ → List ε → γ × List ε
  | popped, [] => (popped, [])
  | popped, oldest :: rest => if live oldest then (popped, oldest :: rest) else popStale live count (count popped) rest

theorem popStale_eq {γ : Type*} (live : ε → Bool) (count : γ → γ) (popped : γ) (entries : List ε) :
    popStale live count popped entries =
      (count^[(entries.takeWhile fun e => !live e).length] popped, entries.dropWhile fun e => !live e) := by
  induction entries generalizing popped with
  | nil => rfl
  | cons oldest rest ih =>
    cases hlive : live oldest with
    | true => simp [popStale, hlive]
    | false => simp [popStale, hlive, ih]

theorem Aged.filter_rtake (h : Aged live entries) (n : ℕ) :
    (entries.rtake n).filter live = (entries.filter live).rtake n := by
  induction entries using List.reverseRecOn generalizing n with
  | nil => simp
  | append_singleton entries e ih =>
    cases n with
    | zero => simp
    | succ n =>
      have hbefore : Aged live entries := h.sublist (List.sublist_append_left _ _)
      rw [List.rtake_concat_succ, List.filter_append, ih hbefore]
      cases hlive : live e with
      | true => simp [hlive]
      | false =>
        -- nothing before a stale entry is live
        have hstale : entries.filter live = [] := by
          rw [List.filter_eq_nil_iff]
          intro x hx hxlive
          have := (List.pairwise_append.mp h).2.2 x hx e (by simp) hxlive
          simp [hlive] at this
        simp [hlive, hstale]

end Aging

section Latest

variable {ε κ : Type*} [DecidableEq κ] (key : ε → κ)

/-- Delete the key's entry and insert it again at the end. -/
def renew (entries : List ε) (e : ε) : List ε :=
  entries.filter (fun x => key x ≠ key e) ++ [e]

/-- The last sighting of every key, least recent first. -/
def latest (seen : List ε) : List ε := seen.foldl (renew key) []

/-- The last sighting of one key. -/
def lastOf (seen : List ε) (k : κ) : Option ε := (seen.filter fun x => key x = k).getLast?

@[simp] theorem latest_nil : latest key [] = [] := rfl

@[simp] theorem latest_concat (seen : List ε) (e : ε) :
    latest key (seen ++ [e]) = renew key (latest key seen) e := by
  simp [latest, List.foldl_append]

theorem lastOf_concat (seen : List ε) (e : ε) (k : κ) :
    lastOf key (seen ++ [e]) k = if key e = k then some e else lastOf key seen k := by
  by_cases h : key e = k
  · simp [lastOf, h]
  · simp [lastOf, h]

theorem latest_sublist (seen : List ε) : (latest key seen).Sublist seen := by
  induction seen using List.reverseRecOn with
  | nil => simp
  | append_singleton seen e ih =>
    rw [latest_concat]
    exact ((List.filter_sublist).trans ih).append (List.Sublist.refl _)

theorem nodup_latest (seen : List ε) : ((latest key seen).map key).Nodup := by
  induction seen using List.reverseRecOn with
  | nil => simp
  | append_singleton seen e ih =>
    rw [latest_concat, renew, List.map_append, List.nodup_append]
    refine ⟨(List.filter_sublist.map key).nodup ih, by simp, ?_⟩
    simp only [List.map_cons, List.map_nil, List.mem_singleton, List.mem_map, List.mem_filter]
    rintro _ ⟨x, ⟨_, hx⟩, rfl⟩ _ rfl
    simpa using hx

theorem mem_latest_iff (seen : List ε) (x : ε) :
    x ∈ latest key seen ↔ lastOf key seen (key x) = some x := by
  induction seen using List.reverseRecOn with
  | nil => simp [lastOf]
  | append_singleton seen e ih =>
    rw [latest_concat, lastOf_concat, renew, List.mem_append, List.mem_filter, List.mem_singleton, ih]
    by_cases h : key e = key x
    · simp only [h, ↓reduceIte, Option.some.injEq]
      constructor
      · rintro (⟨_, hne⟩ | rfl)
        · simp at hne
        · rfl
      · rintro rfl
        exact .inr rfl
    · have hxe : x ≠ e := fun hx => h (by rw [hx])
      have hne : key x ≠ key e := fun hk => h hk.symm
      simp [h, hxe, hne]

theorem filter_ne_of_notMem {entries : List ε} {k : κ} (h : k ∉ entries.map key) :
    entries.filter (fun x => key x ≠ k) = entries := by
  rw [List.filter_eq_self]
  intro x hx
  have hne : key x ≠ k := fun hk => h (hk ▸ List.mem_map_of_mem hx)
  simpa using hne

/-- Removing the one entry of a key. -/
theorem eraseIdx_of_findIdx? {entries : List ε} {k : κ} {i : ℕ} (hnodup : (entries.map key).Nodup)
    (h : entries.findIdx? (fun x => key x = k) = some i) :
    entries.eraseIdx i = entries.filter fun x => key x ≠ k := by
  induction entries generalizing i with
  | nil => simp at h
  | cons x entries ih =>
    obtain ⟨hx, hrest⟩ := List.nodup_cons.mp hnodup
    by_cases hk : key x = k
    · obtain rfl : i = 0 := by simpa [List.findIdx?_cons, hk, eq_comm] using h
      rw [List.eraseIdx_cons_zero, List.filter_cons_of_neg (by simpa using hk),
        filter_ne_of_notMem key (hk ▸ hx)]
    · rw [List.findIdx?_cons] at h
      simp only [hk, decide_false, Bool.false_eq_true, ↓reduceIte, Option.map_eq_some_iff] at h
      obtain ⟨j, hj, rfl⟩ := h
      rw [List.eraseIdx_cons_succ, List.filter_cons_of_pos (by simpa using hk), ih hrest hj]

theorem length_renew_of_mem {entries : List ε} {e : ε} (hnodup : (entries.map key).Nodup)
    (h : key e ∈ entries.map key) : (renew key entries e).length = entries.length := by
  rw [renew, List.length_append, List.length_singleton]
  induction entries with
  | nil => simp at h
  | cons x entries ih =>
    obtain ⟨hx, hrest⟩ := List.nodup_cons.mp hnodup
    by_cases hk : key x = key e
    · rw [List.filter_cons_of_neg (by simpa using hk), filter_ne_of_notMem key (hk ▸ hx), List.length_cons]
    · have hmem : key e ∈ entries.map key := (List.mem_cons.mp h).resolve_left (Ne.symm hk)
      rw [List.filter_cons_of_pos (by simpa using hk), List.length_cons, List.length_cons, ih hrest hmem]

omit [DecidableEq κ] in
theorem rtake_append (older : List ε) {entries : List ε} {n : ℕ} (hle : entries.length ≤ n)
    (h : older = [] ∨ entries.length = n) : (older ++ entries).rtake n = entries := by
  rw [List.rtake, List.length_append]
  rcases h with rfl | h
  · simp [Nat.sub_eq_zero_of_le hle]
  · rw [h, Nat.add_sub_cancel, List.drop_left]

/-- Renewing one key of a list changes its last `n` entries alone. -/
theorem rtake_renew {entries : List ε} {e : ε} (hnodup : (entries.map key).Nodup) {n : ℕ}
    (hn : 0 < n) :
    (renew key entries e).rtake n =
      if key e ∈ (entries.rtake n).map key then renew key (entries.rtake n) e
      else if (entries.rtake n).length < n then entries.rtake n ++ [e]
      else (entries.rtake n).tail ++ [e] := by
  have hsplit : entries.rdrop n ++ entries.rtake n = entries := List.take_append_drop _ _
  have hlen : (entries.rtake n).length = min n entries.length := by
    rw [List.rtake, List.length_drop]
    omega
  have hfull : entries.rdrop n = [] ∨ (entries.rtake n).length = n := by
    by_cases hle : entries.length ≤ n
    · left
      rw [List.rdrop, Nat.sub_eq_zero_of_le hle, List.take_zero]
    · right
      omega
  generalize entries.rdrop n = older at hsplit hfull
  generalize entries.rtake n = recent at hsplit hfull hlen ⊢
  subst hsplit
  rw [List.map_append, List.nodup_append] at hnodup
  obtain ⟨-, hrecent, hdisjoint⟩ := hnodup
  split_ifs with hmem hroom
  · have holder : key e ∉ older.map key := fun h => hdisjoint _ h _ hmem rfl
    have hrenew := length_renew_of_mem key hrecent hmem
    rw [renew, List.filter_append, filter_ne_of_notMem key holder, List.append_assoc]
    exact rtake_append older (by rw [← renew]; omega) (hfull.imp_right fun h => by rw [← renew]; omega)
  · obtain rfl : older = [] := hfull.resolve_right (by omega)
    rw [List.nil_append, renew, filter_ne_of_notMem key hmem]
    exact rtake_append [] (by simpa using hroom) (.inl rfl)
  · obtain ⟨x, rest, rfl⟩ : ∃ x rest, recent = x :: rest :=
      List.exists_cons_of_length_pos (by omega)
    rw [renew, List.filter_append, filter_ne_of_notMem key hmem, List.tail_cons, List.append_assoc,
      List.cons_append, List.append_cons]
    have hlast : (rest ++ [e]).length = n := by
      simp only [List.length_cons, List.length_append, List.length_nil] at hlen hroom ⊢
      omega
    exact rtake_append _ hlast.le (.inr hlast)

/-- The keys whose last sighting is live. -/
def current (live : ε → Bool) (seen : List ε) : Finset κ :=
  (seen.map key).toFinset.filter fun k => (lastOf key seen k).any live

theorem current_eq (live : ε → Bool) (seen : List ε) :
    current key live seen = (((latest key seen).filter live).map key).toFinset := by
  ext k
  simp only [current, Finset.mem_filter, List.mem_toFinset, List.mem_map, List.mem_filter,
    Option.any_eq_true]
  constructor
  · rintro ⟨_, x, hlast, hlive⟩
    have hk : key x = k := by
      have := List.mem_of_getLast? hlast
      simpa using (List.mem_filter.mp this).2
    exact ⟨x, ⟨(mem_latest_iff key seen x).mpr (hk ▸ hlast), hlive⟩, hk⟩
  · rintro ⟨x, ⟨hx, hlive⟩, rfl⟩
    exact ⟨⟨x, (latest_sublist key seen).subset hx, rfl⟩, x, (mem_latest_iff key seen x).mp hx, hlive⟩

theorem card_current (live : ε → Bool) (seen : List ε) :
    (current key live seen).card = ((latest key seen).filter live).length := by
  have hnodup : (((latest key seen).filter live).map key).Nodup :=
    (List.filter_sublist.map key).nodup (nodup_latest key seen)
  rw [current_eq, List.toFinset_card_of_nodup hnodup, List.length_map]

end Latest

section Held

variable {ε κ : Type*} [DecidableEq κ] (key : ε → κ) (time : ε → ℕ) (period capacity : ℕ)

def fresh (now : ℕ) (e : ε) : Bool := now - time e < period

/-- The fresh last sightings, only the most recent ones when they exceed the
capacity; least recent first. -/
def held (now : ℕ) (seen : List ε) : List ε :=
  ((latest key seen).filter (fresh time period now)).rtake capacity

theorem fresh_iff {now : ℕ} {e : ε} : fresh time period now e ↔ now - time e < period := decide_eq_true_iff

theorem fresh_of_le {now later : ℕ} (hle : now ≤ later) {e : ε} (h : fresh time period later e) :
    fresh time period now e := by
  simp only [fresh, decide_eq_true_eq] at h ⊢
  omega

theorem aged_fresh {entries : List ε} (h : entries.Pairwise fun a b => time a ≤ time b) (now : ℕ) :
    Aged (fresh time period now) entries := by
  refine h.imp ?_
  intro a b hab hfresh
  simp only [fresh, decide_eq_true_eq] at hfresh ⊢
  omega

theorem held_sublist (now : ℕ) (seen : List ε) :
    (held key time period capacity now seen).Sublist seen :=
  (List.drop_sublist _ _).trans (List.filter_sublist.trans (latest_sublist key seen))

theorem nodup_held (now : ℕ) (seen : List ε) :
    ((held key time period capacity now seen).map key).Nodup :=
  (((List.drop_sublist _ _).trans List.filter_sublist).map key).nodup (nodup_latest key seen)

theorem length_held (now : ℕ) (seen : List ε) :
    (held key time period capacity now seen).length =
      min capacity (current key (fresh time period now) seen).card := by
  rw [held, List.rtake, List.length_drop, card_current]
  omega

/-- What is still fresh later of what is held now is what is held later. -/
theorem filter_held {now later : ℕ} (hle : now ≤ later) {seen : List ε}
    (h : seen.Pairwise fun a b => time a ≤ time b) :
    (held key time period capacity now seen).filter (fresh time period later) =
      held key time period capacity later seen := by
  have hsorted := (h.sublist (latest_sublist key seen)).sublist
    (List.filter_sublist (p := fresh time period now))
  rw [held, (aged_fresh time period hsorted later).filter_rtake, List.filter_filter, held]
  congr 1
  refine List.filter_congr fun x _ => ?_
  by_cases hx : fresh time period later x
  · simp [hx, fresh_of_le time period hle hx]
  · simp [hx]

variable {now : ℕ} (seen : List ε) {e : ε}

/-- A sighting at the present renews its key, or pushes out the least recent
entry when the memory is full of others. -/
theorem held_concat (hcap : 0 < capacity) (he : fresh time period now e) :
    held key time period capacity now (seen ++ [e]) =
      if key e ∈ (held key time period capacity now seen).map key then
        renew key (held key time period capacity now seen) e
      else if (held key time period capacity now seen).length < capacity then
        held key time period capacity now seen ++ [e]
      else (held key time period capacity now seen).tail ++ [e] := by
  have hnodup : (((latest key seen).filter (fresh time period now)).map key).Nodup :=
    (List.filter_sublist.map key).nodup (nodup_latest key seen)
  have hcomm : (latest key (seen ++ [e])).filter (fresh time period now) =
      renew key ((latest key seen).filter (fresh time period now)) e := by
    rw [latest_concat, renew, renew, List.filter_append, List.filter_singleton, he, List.filter_comm]
    rfl
  rw [held, hcomm, rtake_renew key hnodup hcap]
  rfl

end Held

section Timely

variable {ε : Type*} {time : ε → ℕ} {now : ℕ} {entries kept : List ε} {e : ε}

/-- In the order of their times, none of them after the present. -/
structure Timely (time : ε → ℕ) (now : ℕ) (entries : List ε) : Prop where
  ordered : entries.Pairwise fun a b => time a ≤ time b
  past : ∀ e ∈ entries, time e ≤ now

theorem Timely.nil : Timely time now [] := ⟨.nil, by simp⟩

theorem Timely.later (h : Timely time now entries) {present : ℕ} (hle : now ≤ present) : Timely time present entries :=
  ⟨h.ordered, fun e he => (h.past e he).trans hle⟩

theorem Timely.sublist (h : Timely time now entries) (hsub : kept.Sublist entries) : Timely time now kept :=
  ⟨h.ordered.sublist hsub, fun e he => h.past e (hsub.subset he)⟩

/-- A sighting at the present goes to the end. -/
theorem Timely.concat (h : Timely time now entries) (he : time e = now) : Timely time now (entries ++ [e]) := by
  refine ⟨List.pairwise_append.mpr ⟨h.ordered, List.pairwise_singleton _ _, ?_⟩, ?_⟩
  · intro a ha b hb
    rw [List.mem_singleton.mp hb, he]
    exact h.past a ha
  · intro a ha
    rcases List.mem_append.mp ha with hold | hnew
    · exact h.past a hold
    · rw [List.mem_singleton.mp hnew, he]

/-- Dropping stale entries from the front leaves none behind. -/
theorem Timely.fresh_of_dropWhile (h : Timely time now entries) (period present : ℕ) :
    ∀ e ∈ entries.dropWhile fun e => !fresh time period present e, fresh time period present e := by
  intro e he
  rw [(aged_fresh time period h.ordered present).dropWhile] at he
  exact (List.mem_filter.mp he).2

end Timely

end Kmsrs.Recency
