import Kmsrs.Lib.Rows

/-! A token bucket that earns whole units of time and forgets the fraction. A
call takes a token if there is one; the bucket may be forgotten between calls and
then starts full. Over any window the calls allowed are bounded by the capacity
and the units in it, with one unit's tokens to spare; and traffic that keeps to
the capacity and the rate is never refused, as long as no refill short of a full
bucket drops a fraction of a unit. -/

namespace Kmsrs.TokenBucket

/-- What the bucket holds when full, what a unit of time earns, and how long a
unit is. -/
structure Meter where
  capacity : ℕ
  rate : ℕ
  unit : ℕ
  unit_pos : 0 < unit

structure Level where
  tokens : ℕ
  last : ℕ
deriving DecidableEq

inductive Event where
  | call (now : ℕ)
  | forget

variable (m : Meter)

/-- The tokens of the whole units since the last refill. Earning any moves the
last refill to now. -/
def refill (level : Level) (now : ℕ) : Level :=
  if 0 < (now - level.last) / m.unit * m.rate then
    ⟨min m.capacity (level.tokens + (now - level.last) / m.unit * m.rate), now⟩
  else level

/-- A call is allowed if there is a token for it. -/
def call (level : Option Level) (now : ℕ) : Bool × Level :=
  let refilled := refill m (level.getD ⟨m.capacity, now⟩) now
  if refilled.tokens = 0 then (false, refilled) else (true, ⟨refilled.tokens - 1, refilled.last⟩)

def step (level : Option Level) : Event → Option Level
  | .call now => some (call m level now).2
  | .forget => none

def after (events : List Event) : Option Level := events.foldl (step m) none

/-- The times of the calls. -/
def calls (events : List Event) : List ℕ :=
  events.filterMap fun
    | .call now => some now
    | .forget => none

/-- The times of the calls that are allowed, from a given level. -/
def allowedFrom (level : Option Level) : List Event → List ℕ
  | [] => []
  | .call now :: events =>
    (if (call m level now).1 then [now] else []) ++ allowedFrom (some (call m level now).2) events
  | .forget :: events => allowedFrom none events

def allowed (events : List Event) : List ℕ := allowedFrom m none events

/-- How many of the times lie in a window. -/
def within (s t : ℕ) (times : List ℕ) : ℕ := times.countP fun u => s ≤ u ∧ u ≤ t

@[simp] theorem after_nil : after m [] = none := rfl

@[simp] theorem after_concat (events : List Event) (event : Event) :
    after m (events ++ [event]) = step m (after m events) event := by
  simp [after, List.foldl_append]

@[simp] theorem calls_concat_call (events : List Event) (now : ℕ) :
    calls (events ++ [.call now]) = calls events ++ [now] := by
  simp [calls]

@[simp] theorem calls_concat_forget (events : List Event) : calls (events ++ [.forget]) = calls events := by
  simp [calls]

theorem allowedFrom_concat (level : Option Level) (events : List Event) (event : Event) :
    allowedFrom m level (events ++ [event]) =
      allowedFrom m level events ++ allowedFrom m (events.foldl (step m) level) [event] := by
  induction events generalizing level with
  | nil => simp [allowedFrom]
  | cons first events ih =>
    cases first with
    | call now => simp [allowedFrom, ih, step]
    | forget => simp [allowedFrom, ih, step]

@[simp] theorem allowed_concat_call (events : List Event) (now : ℕ) :
    allowed m (events ++ [.call now]) =
      allowed m events ++ if (call m (after m events) now).1 then [now] else [] := by
  rw [allowed, allowedFrom_concat, allowedFrom, allowedFrom, List.append_nil]
  rfl

@[simp] theorem allowed_concat_forget (events : List Event) :
    allowed m (events ++ [.forget]) = allowed m events := by
  rw [allowed, allowedFrom_concat]
  simp [allowedFrom, allowed]

theorem allowed_sublist (events : List Event) : (allowed m events).Sublist (calls events) := by
  induction events using List.reverseRecOn with
  | nil => simp [allowed, allowedFrom]
  | append_singleton events event ih =>
    cases event with
    | call now =>
      rw [allowed_concat_call, calls_concat_call]
      refine ih.append ?_
      split_ifs
      · exact List.Sublist.refl _
      · exact List.nil_sublist _
    | forget =>
      rw [allowed_concat_forget, calls_concat_forget]
      exact ih

@[simp] theorem within_append (s t : ℕ) (a b : List ℕ) : within s t (a ++ b) = within s t a + within s t b := by
  simp [within]

theorem within_singleton (s t u : ℕ) : within s t [u] = if s ≤ u ∧ u ≤ t then 1 else 0 := by
  simp [within, List.countP_singleton]

/-! ### The level after a refill -/

section Refill

variable {m} {level : Level} {now : ℕ}

theorem refill_of_pos (h : 0 < (now - level.last) / m.unit * m.rate) :
    refill m level now =
      ⟨min m.capacity (level.tokens + (now - level.last) / m.unit * m.rate), now⟩ := if_pos h

theorem refill_of_zero (h : (now - level.last) / m.unit * m.rate = 0) : refill m level now = level :=
  if_neg (by omega)

theorem refill_full (now : ℕ) : refill m ⟨m.capacity, now⟩ now = ⟨m.capacity, now⟩ :=
  refill_of_zero (by simp)

theorem refill_le (h : level.tokens ≤ m.capacity) : (refill m level now).tokens ≤ m.capacity := by
  rw [refill]
  split_ifs
  · exact Nat.min_le_left _ _
  · exact h

theorem last_refill_le (h : level.last ≤ now) : (refill m level now).last ≤ now := by
  rw [refill]
  split_ifs
  · exact le_rfl
  · exact h

/-- Nothing is earned only in less than a unit, or at no rate. -/
theorem earned_eq_zero (h : (now - level.last) / m.unit * m.rate = 0) :
    m.rate = 0 ∨ now < level.last + m.unit := by
  rcases Nat.mul_eq_zero.mp h with hsecs | hrate
  · right
    have := (Nat.div_eq_zero_iff_lt m.unit_pos).mp hsecs
    omega
  · exact .inl hrate

theorem call_some (level : Level) (now : ℕ) :
    call m (some level) now =
      if (refill m level now).tokens = 0 then (false, refill m level now)
      else (true, ⟨(refill m level now).tokens - 1, (refill m level now).last⟩) := rfl

theorem call_getD (level : Option Level) (now : ℕ) :
    call m level now = call m (some (level.getD ⟨m.capacity, now⟩)) now := rfl

/-- A bucket never holds more than its capacity. -/
theorem call_le {level : Option Level} (now : ℕ) (h : ∀ b, level = some b → b.tokens ≤ m.capacity) :
    (call m level now).2.tokens ≤ m.capacity := by
  have hstart : (level.getD ⟨m.capacity, now⟩).tokens ≤ m.capacity := by
    cases level with
    | none => exact le_rfl
    | some b => exact h b rfl
  have hrefill : (refill m (level.getD ⟨m.capacity, now⟩) now).tokens ≤ m.capacity := refill_le hstart
  rw [call_getD, call_some]
  split_ifs
  · exact hrefill
  · simp only
    omega

end Refill

/-! ### The most that is allowed -/

section Budget

variable {m} {s count : ℕ} {level : Level} {now : ℕ}

/-- The tokens spent since `s` and those left, bounded by the capacity and the
units up to the last refill. When that lies before `s` and something was spent
since, it is less than a unit before. -/
structure Budget (m : Meter) (s count : ℕ) (level : Level) : Prop where
  full : level.tokens ≤ m.capacity
  inside : s ≤ level.last →
    count + level.tokens ≤ m.capacity + m.rate + m.rate * ((level.last - s) / m.unit)
  before : level.last < s →
    count + level.tokens ≤ m.capacity ∧ (0 < count → m.rate = 0 ∨ s < level.last + m.unit)

theorem Budget.refill (h : Budget m s count level) (hlast : level.last ≤ now)
    (hcount : now < s → count = 0) : Budget m s count (refill m level now) := by
  by_cases hearned : (now - level.last) / m.unit * m.rate = 0
  · rwa [refill_of_zero hearned]
  · rw [refill_of_pos (by omega)]
    refine ⟨Nat.min_le_left _ _, fun hs => ?_, fun hs => ?_⟩
    · simp only at hs ⊢
      rcases Nat.lt_or_ge level.last s with hbefore | hinside
      · obtain ⟨hsum, hclose⟩ := h.before hbefore
        rcases Nat.eq_zero_or_pos count with hzero | hpos
        · omega
        · -- the refill reaches back less than a unit before `s`
          have hspan : (now - level.last) / m.unit ≤ (now - s) / m.unit + 1 := by
            rcases hclose hpos with hrate | hclose
            · simp [hrate] at hearned
            · calc (now - level.last) / m.unit ≤ (now - s + m.unit) / m.unit :=
                    Nat.div_le_div_right (by omega)
                _ = (now - s) / m.unit + 1 := Nat.add_div_right _ m.unit_pos
          have hearn := Nat.mul_le_mul_right m.rate hspan
          rw [Nat.add_mul, Nat.one_mul, Nat.mul_comm ((now - s) / m.unit)] at hearn
          omega
      · have hsum := h.inside hinside
        have hspan : (level.last - s) / m.unit + (now - level.last) / m.unit ≤ (now - s) / m.unit := by
          refine Nat.div_add_div_le_add_div.trans (Nat.div_le_div_right ?_)
          omega
        have hearn := Nat.mul_le_mul_left m.rate hspan
        rw [Nat.mul_add, Nat.mul_comm m.rate ((now - level.last) / m.unit)] at hearn
        omega
    · have hzero := hcount hs
      simp only at hs ⊢
      omega

/-- A refill that leaves the last one before `s` has earned nothing. -/
theorem close_of_last_lt (hs : s ≤ now) (hlast : (refill m level now).last < s) :
    m.rate = 0 ∨ s < (refill m level now).last + m.unit := by
  by_cases hearned : (now - level.last) / m.unit * m.rate = 0
  · rw [refill_of_zero hearned]
    rcases earned_eq_zero hearned with hrate | hclose
    · exact .inl hrate
    · right
      omega
  · rw [refill_of_pos (by omega)] at hlast
    exact absurd hlast (by simpa using hs)

/-- A call spends at most the token it takes. -/
theorem Budget.call (h : Budget m s count level) (hlast : level.last ≤ now)
    (hcount : now < s → count = 0) :
    Budget m s (count + if (call m (some level) now).1 ∧ s ≤ now then 1 else 0)
      (call m (some level) now).2 := by
  have hrefilled := h.refill hlast hcount
  have hclose : s ≤ now → (TokenBucket.refill m level now).last < s →
      m.rate = 0 ∨ s < (TokenBucket.refill m level now).last + m.unit := close_of_last_lt
  rw [call_some]
  generalize TokenBucket.refill m level now = refilled at hrefilled hclose
  obtain ⟨hfull, hinside, hbefore⟩ := hrefilled
  by_cases hempty : refilled.tokens = 0
  · simpa [hempty] using ⟨hfull, hinside, hbefore⟩
  · by_cases hs : s ≤ now
    · simp only [hempty, ↓reduceIte, hs, and_self]
      refine ⟨by simp only; omega, fun h => ?_, fun h => ⟨?_, fun _ => hclose hs h⟩⟩
      · have := hinside h
        simp only
        omega
      · have := (hbefore h).1
        simp only
        omega
    · simp only [hempty, ↓reduceIte, hs, and_false, Nat.add_zero]
      refine ⟨by simp only; omega, fun h => ?_, fun h => ⟨?_, (hbefore h).2⟩⟩
      · have := hinside h
        simp only
        omega
      · have := (hbefore h).1
        simp only
        omega

theorem last_call_le (hlast : level.last ≤ now) : (call m (some level) now).2.last ≤ now := by
  rw [call_some]
  split_ifs
  · exact last_refill_le hlast
  · exact last_refill_le hlast

/-- The bucket is never forgotten. -/
def Kept (events : List Event) : Prop := ∀ event ∈ events, event ≠ .forget

theorem Kept.of_concat {events : List Event} {event : Event} (h : Kept (events ++ [event])) : Kept events :=
  fun e he => h e (List.mem_append_left _ he)

theorem eq_nil_of_after {events : List Event} (hkept : Kept events) (h : after m events = none) :
    events = [] := by
  rcases List.eq_nil_or_concat events with rfl | ⟨events, event, rfl⟩
  · rfl
  · rw [List.concat_eq_append] at h hkept
    cases event with
    | call now => simp [step] at h
    | forget => exact absurd rfl (hkept .forget (by simp))

/-- A last refill is the time of some call. -/
theorem last_le {events : List Event} (h : (calls events).Pairwise (· ≤ ·)) (hlevel : after m events = some level)
    (hnow : ∀ u ∈ calls events, u ≤ now) : level.last ≤ now := by
  induction events using List.reverseRecOn generalizing level now with
  | nil => simp at hlevel
  | append_singleton events event ih =>
    cases event with
    | forget => simp [step] at hlevel
    | call u =>
      rw [calls_concat_call] at h hnow
      have hu : u ≤ now := hnow u (by simp)
      rw [after_concat, step, Option.some.injEq, call_getD] at hlevel
      rw [← hlevel]
      refine (last_call_le ?_).trans hu
      cases hbefore : after m events with
      | none => exact le_rfl
      | some level' =>
        exact ih (h.sublist (List.sublist_append_left _ _)) hbefore fun v hv =>
          (List.pairwise_append.mp h).2.2 v hv u (by simp)

/-- Along a run that never forgets the bucket, the budget is kept. -/
theorem budget_after (s : ℕ) {events : List Event} (hkept : Kept events)
    (h : (calls events).Pairwise (· ≤ ·)) (hlevel : after m events = some level) :
    Budget m s ((allowed m events).countP fun u => s ≤ u) level := by
  induction events using List.reverseRecOn generalizing level with
  | nil => simp at hlevel
  | append_singleton events event ih =>
    cases event with
    | forget => exact absurd rfl (hkept .forget (by simp))
    | call now =>
      rw [calls_concat_call] at h
      have hsorted := h.sublist (List.sublist_append_left _ _)
      have hpast : ∀ u ∈ calls events, u ≤ now := fun u hu =>
        (List.pairwise_append.mp h).2.2 u hu now (by simp)
      have hearly : now < s → (allowed m events).countP (fun u => s ≤ u) = 0 := by
        intro hs
        rw [List.countP_eq_zero]
        intro u hu
        have := hpast u ((allowed_sublist m events).subset hu)
        simpa using by omega
      have hcount : (allowed m (events ++ [.call now])).countP (fun u => s ≤ u) =
          (allowed m events).countP (fun u => s ≤ u) +
            if (call m (after m events) now).1 ∧ s ≤ now then 1 else 0 := by
        rw [allowed_concat_call, List.countP_append]
        cases (call m (after m events) now).1 <;> simp [List.countP_singleton]
      have hbefore : Budget m s ((allowed m events).countP fun u => s ≤ u)
          ((after m events).getD ⟨m.capacity, now⟩) := by
        cases hafter : after m events with
        | none =>
          obtain rfl := eq_nil_of_after hkept.of_concat hafter
          refine ⟨le_rfl, fun _ => ?_, fun _ => ⟨?_, ?_⟩⟩
          · simp only [allowed, allowedFrom, List.countP_nil, Option.getD_none]
            omega
          · simp [allowed, allowedFrom]
          · simp [allowed, allowedFrom]
        | some before => exact ih hkept.of_concat hsorted hafter
      have hlast : ((after m events).getD ⟨m.capacity, now⟩).last ≤ now := by
        cases hafter : after m events with
        | none => exact le_rfl
        | some before => exact last_le hsorted hafter hpast
      rw [after_concat, step, Option.some.injEq] at hlevel
      rw [hcount, ← hlevel, call_getD]
      exact hbefore.call hlast hearly

/-- The calls allowed in a window. -/
theorem within_allowed_le (s t : ℕ) {events : List Event} (hkept : Kept events)
    (h : (calls events).Pairwise (· ≤ ·)) :
    within s t (allowed m events) ≤ m.capacity + m.rate * ((t - s) / m.unit) + m.rate := by
  induction events using List.reverseRecOn with
  | nil => simp [allowed, allowedFrom, within]
  | append_singleton events event ih =>
    cases event with
    | forget => exact absurd rfl (hkept .forget (by simp))
    | call now =>
      rw [calls_concat_call] at h
      by_cases hlate : t < now
      · have hsame : within s t (allowed m (events ++ [.call now])) = within s t (allowed m events) := by
          rw [allowed_concat_call, within_append]
          split_ifs
          · rw [within_singleton, if_neg (by omega), Nat.add_zero]
          · rfl
        rw [hsame]
        exact ih hkept.of_concat (h.sublist (List.sublist_append_left _ _))
      · have hle : ∀ u ∈ calls (events ++ [.call now]), u ≤ t := by
          intro u hu
          rw [calls_concat_call, List.mem_append, List.mem_singleton] at hu
          rcases hu with hu | rfl
          · exact ((List.pairwise_append.mp h).2.2 u hu now (by simp)).trans (by omega)
          · omega
        have hwithin : within s t (allowed m (events ++ [.call now])) =
            (allowed m (events ++ [.call now])).countP fun u => s ≤ u := by
          refine List.countP_congr fun u hu => ?_
          have := hle u ((allowed_sublist m _).subset hu)
          simp [this]
        have hafter : after m (events ++ [.call now]) = some (call m (after m events) now).2 := by
          rw [after_concat, step]
        rw [← calls_concat_call] at h
        obtain ⟨-, hinside, hbefore⟩ := budget_after s hkept h hafter
        have hlast := last_le h hafter hle
        rw [hwithin]
        generalize (call m (after m events) now).2 = level at hinside hbefore hlast
        rcases Nat.lt_or_ge level.last s with hlt | hge
        · have := (hbefore hlt).1
          omega
        · have hsum := hinside hge
          have hspan : (level.last - s) / m.unit ≤ (t - s) / m.unit := Nat.div_le_div_right (by omega)
          have hearn := Nat.mul_le_mul_left m.rate hspan
          omega

end Budget

/-! ### Traffic that keeps to the rate -/

section Conforming

variable {m} {events : List Event} {level : Level} {now : ℕ}

/-- A refill at this reading drops no fraction of a unit, or fills the bucket. -/
def Whole (m : Meter) (level : Option Level) (now : ℕ) : Prop :=
  ∀ b, level = some b → b.last + m.unit ≤ now →
    m.unit ∣ now - b.last ∨ m.capacity ≤ b.tokens + (now - b.last) / m.unit * m.rate

/-- No refill of the run short of a full bucket drops a fraction of a unit. -/
def WholeRefills (m : Meter) (events : List Event) : Prop :=
  ∀ before now later, events = before ++ .call now :: later → Whole m (after m before) now

/-- No window holds more calls than the capacity and the rate grant it. -/
def Conforms (m : Meter) (times : List ℕ) : Prop :=
  ∀ s t, within s t times ≤ m.capacity + m.rate * ((t - s) / m.unit)

/-- Since the bucket was last full, at `f`, only whole units were earned, and each
token was taken by a call. -/
def Paid (m : Meter) (times : List ℕ) (level : Level) : Prop :=
  ∃ f q c, level.last = f + m.unit * q ∧ level.tokens + c = m.capacity + m.rate * q ∧
    c ≤ times.countP fun u => f ≤ u

theorem WholeRefills.of_concat {event : Event} (h : WholeRefills m (events ++ [event])) :
    WholeRefills m events := by
  rintro before now later rfl
  exact h before now (later ++ [event]) (by simp)

theorem WholeRefills.nil : WholeRefills m [] := by
  intro before now later h
  simp at h

theorem WholeRefills.concat {event : Event} (h : WholeRefills m events)
    (hlast : ∀ now, event = .call now → Whole m (after m events) now) : WholeRefills m (events ++ [event]) := by
  intro before now later heq
  rcases List.eq_nil_or_concat later with rfl | ⟨later, last, rfl⟩
  · obtain ⟨rfl, hevent⟩ := List.append_inj' heq rfl
    exact hlast now (List.singleton_inj.mp hevent)
  · rw [List.concat_eq_append, ← List.cons_append, ← List.append_assoc] at heq
    exact h before now later (List.append_inj' heq rfl).1

theorem Conforms.of_concat {times : List ℕ} (h : Conforms m (times ++ [now])) : Conforms m times := by
  intro s t
  refine le_trans ?_ (h s t)
  rw [within_append]
  omega

theorem countP_concat_of_le {f : ℕ} (times : List ℕ) (h : f ≤ now) :
    (times ++ [now]).countP (fun u => f ≤ u) = times.countP (fun u => f ≤ u) + 1 := by
  simp [List.countP_append, h]

/-- A full bucket allows a call and is paid for from here on. -/
theorem call_of_full (hcap : 0 < m.capacity) (times : List ℕ) {full : Level}
    (hfull : refill m full now = ⟨m.capacity, now⟩) :
    (call m (some full) now).1 = true ∧ Paid m (times ++ [now]) (call m (some full) now).2 := by
  have hne : m.capacity ≠ 0 := by omega
  rw [call_some, hfull, if_neg hne]
  refine ⟨rfl, now, 0, 1, by simp, ?_, ?_⟩
  · simp only [Nat.mul_zero, Nat.add_zero]
    omega
  · rw [countP_concat_of_le times le_rfl]
    omega

/-- A call within the rate is allowed, if the refill before it drops nothing. -/
theorem call_of_paid (hcap : 0 < m.capacity) (hrate : 0 < m.rate) {times : List ℕ}
    (hpaid : Paid m times level) (hlast : level.last ≤ now) (hpast : ∀ u ∈ times, u ≤ now)
    (hwhole : Whole m (some level) now) (hconforms : Conforms m (times ++ [now])) :
    (call m (some level) now).1 = true ∧ Paid m (times ++ [now]) (call m (some level) now).2 := by
  obtain ⟨f, q, c, hf, hsum, hc⟩ := hpaid
  have hfnow : f ≤ now := by omega
  by_cases hunit : level.last + m.unit ≤ now
  · have hsecs : 0 < (now - level.last) / m.unit := Nat.div_pos (by omega) m.unit_pos
    have hrefill := refill_of_pos (m := m) (Nat.mul_pos hsecs hrate)
    rcases Nat.lt_or_ge (level.tokens + (now - level.last) / m.unit * m.rate) m.capacity with hshort | hfills
    · have hdvd := (hwhole level rfl hunit).resolve_right (by omega)
      have hspan := Nat.mul_div_cancel' hdvd
      rw [call_some, hrefill, Nat.min_eq_right hshort.le]
      have hpos := Nat.mul_pos hsecs hrate
      rw [if_neg (by simp only; omega)]
      refine ⟨rfl, f, q + (now - level.last) / m.unit, c + 1, ?_, ?_, ?_⟩
      · simp only [Nat.mul_add]
        omega
      · simp only [Nat.mul_add]
        rw [Nat.mul_comm m.rate ((now - level.last) / m.unit)]
        omega
      · rw [countP_concat_of_le times hfnow]
        omega
    · rw [Nat.min_eq_left hfills] at hrefill
      exact call_of_full hcap times hrefill
  · have hzero : (now - level.last) / m.unit = 0 := Nat.div_eq_of_lt (by omega)
    have hrefill : refill m level now = level := refill_of_zero (by rw [hzero, Nat.zero_mul])
    -- an empty bucket would mean one call too many since it was full
    have htoken : level.tokens ≠ 0 := by
      intro hempty
      have hunits : (now - f) / m.unit = q := by
        have hsplit : now - f = (now - level.last) + m.unit * q := by omega
        rw [hsplit, Nat.add_mul_div_left _ _ m.unit_pos, hzero, Nat.zero_add]
      have hwindow := hconforms f now
      have hcount : within f now (times ++ [now]) = (times ++ [now]).countP fun u => f ≤ u := by
        refine List.countP_congr fun u hu => ?_
        have hu : u ≤ now := by
          rcases List.mem_append.mp hu with hu | hu
          · exact hpast u hu
          · exact (List.mem_singleton.mp hu).le
        simp [hu]
      rw [hcount, countP_concat_of_le times hfnow, hunits] at hwindow
      omega
    rw [call_some, hrefill, if_neg htoken]
    refine ⟨rfl, f, q, c + 1, hf, ?_, ?_⟩
    · simp only
      omega
    · rw [countP_concat_of_le times hfnow]
      omega

/-- Conforming calls are all allowed when no refill drops a fraction. -/
theorem allowed_of_conforms (hcap : 0 < m.capacity) (hrate : 0 < m.rate)
    (h : (calls events).Pairwise (· ≤ ·)) (hconforms : Conforms m (calls events))
    (hwhole : WholeRefills m events) :
    allowed m events = calls events ∧ ∀ level, after m events = some level → Paid m (calls events) level := by
  induction events using List.reverseRecOn with
  | nil => simp [allowed, allowedFrom, calls]
  | append_singleton events event ih =>
    cases event with
    | forget =>
      rw [calls_concat_forget] at h hconforms ⊢
      refine ⟨?_, by simp [step]⟩
      rw [allowed_concat_forget]
      exact (ih h hconforms hwhole.of_concat).1
    | call now =>
      rw [calls_concat_call] at h hconforms ⊢
      have hsorted := h.sublist (List.sublist_append_left _ _)
      have hpast : ∀ u ∈ calls events, u ≤ now := fun u hu =>
        (List.pairwise_append.mp h).2.2 u hu now (by simp)
      obtain ⟨hall, hpaid⟩ := ih hsorted hconforms.of_concat hwhole.of_concat
      have hcall : (call m (after m events) now).1 = true ∧
          Paid m (calls events ++ [now]) (call m (after m events) now).2 := by
        cases hafter : after m events with
        | none => exact call_of_full hcap _ (refill_full now)
        | some level =>
          have hstep : Whole m (some level) now := hafter ▸ hwhole events now [] rfl
          exact call_of_paid hcap hrate (hpaid level hafter) (last_le hsorted hafter hpast) hpast hstep hconforms
      refine ⟨?_, ?_⟩
      · rw [allowed_concat_call, hcall.1, if_pos rfl, hall]
      · intro level hlevel
        rw [after_concat, step, Option.some.injEq] at hlevel
        exact hlevel ▸ hcall.2

/-- An empty bucket has a token again after one unit. -/
theorem call_after_unit (hcap : 0 < m.capacity) (hrate : 0 < m.rate) (hnow : level.last + m.unit ≤ now) :
    (call m (some level) now).1 = true := by
  have hsecs : 0 < (now - level.last) / m.unit := Nat.div_pos (by omega) m.unit_pos
  have hpos := Nat.mul_pos hsecs hrate
  rw [call_some, refill_of_pos hpos, if_neg]
  simp only
  omega

end Conforming

end Kmsrs.TokenBucket
