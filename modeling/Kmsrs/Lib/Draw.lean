import Kmsrs.Lib.Rows

/-! Programs that draw from a source with a state of its own. A loop of such a program may
reject what it draws, so that a run takes a bound on the rounds of its loops; one that is cut
short is still drawing. A program ends if from some bound on it has ended, always in the
same way. -/

namespace Kmsrs

inductive Drawn (α : Type) where
  | drawing
  | failed
  | drawn (value : α)

/-- Not failed, and what is drawn is as described. -/
def Drawn.Meets {α : Type} (post : α → Prop) : Drawn α → Prop
  | .drawing => True
  | .failed => False
  | .drawn value => post value

/-- What there is after so many rounds of a loop, from a state, and the state then. -/
def Draw (ε α : Type) : Type := ℕ → ε → Drawn α × ε

/-- One step: it fails, or draws, and moves the state either way. -/
abbrev DrawStep (ε α : Type) : Type := ε → Option α × ε

namespace Draw

variable {ε ι α β : Type}

def fail : Draw ε α := fun _ state => (.failed, state)

def once (step : DrawStep ε α) : Draw ε α := fun _ state =>
  match step state with
  | (none, state) => (.failed, state)
  | (some value, state) => (.drawn value, state)

/-- Draw until something is accepted. -/
def retry (step : DrawStep ε α) (accept : α → Option β) : Draw ε β
  | 0, state => (.drawing, state)
  | rounds + 1, state =>
    match step state with
    | (none, state) => (.failed, state)
    | (some value, state) =>
      match accept value with
      | none => retry step accept rounds state
      | some accepted => (.drawn accepted, state)

instance : Monad (Draw ε) where
  pure value := fun _ state => (.drawn value, state)
  bind first next := fun rounds state =>
    match first rounds state with
    | (.drawing, state) => (.drawing, state)
    | (.failed, state) => (.failed, state)
    | (.drawn value, state) => next value rounds state

def ofOption : Option α → Draw ε α
  | none => fail
  | some value => pure value

/-- For each item in its turn. -/
def forEach (program : ι → Draw ε α) : List ι → Draw ε (List α)
  | [] => pure []
  | item :: items => do
    let value ← program item
    let values ← forEach program items
    pure (value :: values)

theorem pure_apply (value : α) (rounds : ℕ) (state : ε) : (pure value : Draw ε α) rounds state = (.drawn value, state) := rfl

theorem bind_apply (first : Draw ε α) (next : α → Draw ε β) (rounds : ℕ) (state : ε) :
    (first >>= next) rounds state =
      match first rounds state with
      | (.drawing, state) => (.drawing, state)
      | (.failed, state) => (.failed, state)
      | (.drawn value, state) => next value rounds state := rfl

/-! ### What was drawn -/

/-- A program that drew something drew something first, and went on from there. -/
theorem bind_eq_drawn_iff {first : Draw ε α} {next : α → Draw ε β} {rounds : ℕ} {state : ε} {b : β} :
    ((first >>= next) rounds state).1 = .drawn b ↔
      ∃ a after, first rounds state = (.drawn a, after) ∧ (next a rounds after).1 = .drawn b := by
  rw [bind_apply]
  rcases hfirst : first rounds state with ⟨_ | _ | a, after⟩
  · simp
  · simp
  · simp

theorem ofOption_eq_drawn_iff {value : Option α} {rounds : ℕ} {state : ε} {a : α} :
    ((ofOption value : Draw ε α) rounds state).1 = .drawn a ↔ value = some a := by
  cases value with
  | none => simp [ofOption, fail]
  | some value => simp [ofOption, pure_apply]

/-- Each item's value is what its program drew. -/
theorem forall₂_of_forEach {body : ι → Draw ε α} {items : List ι} {rounds : ℕ} {state : ε} {values : List α}
    (h : (forEach body items rounds state).1 = .drawn values) :
    List.Forall₂ (fun item value => ∃ state, (body item rounds state).1 = .drawn value) items values := by
  induction items generalizing state values with
  | nil =>
    obtain rfl : [] = values := Drawn.drawn.inj h
    exact .nil
  | cons item items ih =>
    obtain ⟨value, after, hvalue, hrest⟩ := bind_eq_drawn_iff.mp h
    obtain ⟨later, after', hlater, hvalues⟩ := bind_eq_drawn_iff.mp hrest
    obtain rfl : value :: later = values := Drawn.drawn.inj hvalues
    exact .cons ⟨state, by rw [hvalue]⟩ (ih (congrArg Prod.fst hlater))

/-! ### Without failing -/

/-- A step that always draws. -/
def Sure (step : DrawStep ε α) : Prop := ∀ state, ∃ value next, step state = (some value, next)

def Ensures (program : Draw ε α) (post : α → Prop) : Prop := ∀ rounds state, (program rounds state).1.Meets post

namespace Ensures

variable {program : Draw ε α} {post : α → Prop} {post' : β → Prop}

theorem pure {value : α} (h : post value) : Ensures (Pure.pure value : Draw ε α) post := fun _ _ => h

theorem mono (h : Ensures program post) {wider : α → Prop} (himp : ∀ value, post value → wider value) :
    Ensures program wider := by
  intro rounds state
  have hmeets := h rounds state
  cases hrun : (program rounds state).1 with
  | drawing => trivial
  | failed =>
    rw [hrun] at hmeets
    exact hmeets
  | drawn value =>
    rw [hrun] at hmeets
    exact himp value hmeets

theorem bind (h : Ensures program post) {next : α → Draw ε β} (hnext : ∀ value, post value → Ensures (next value) post') :
    Ensures (program >>= next) post' := by
  intro rounds state
  have hmeets := h rounds state
  rw [bind_apply]
  cases hrun : program rounds state with
  | mk outcome after =>
    rw [hrun] at hmeets
    cases outcome with
    | drawing => trivial
    | failed => exact hmeets
    | drawn value => exact hnext value hmeets rounds after

theorem ofOption {value : Option α} (h : ∃ a, value = some a ∧ post a) : Ensures (Draw.ofOption value : Draw ε α) post := by
  obtain ⟨a, rfl, ha⟩ := h
  exact pure ha

theorem once {step : DrawStep ε α} (h : Sure step) : Ensures (Draw.once step) fun _ => True := by
  intro rounds state
  obtain ⟨value, next, hstep⟩ := h state
  rw [Draw.once, hstep]
  trivial

/-- What a loop ends with was accepted. -/
theorem retry {step : DrawStep ε α} (h : Sure step) (accept : α → Option β) :
    Ensures (Draw.retry step accept) fun accepted => ∃ value, accept value = some accepted := by
  intro rounds state
  induction rounds generalizing state with
  | zero => trivial
  | succ rounds ih =>
    obtain ⟨value, next, hstep⟩ := h state
    rw [Draw.retry, hstep]
    cases haccept : accept value with
    | none =>
      simp only [haccept]
      exact ih next
    | some accepted =>
      simp only [haccept]
      exact ⟨value, haccept⟩

theorem forEach {body : ι → Draw ε α} {post : ι → α → Prop} {items : List ι}
    (h : ∀ item ∈ items, Ensures (body item) (post item)) :
    Ensures (Draw.forEach body items) fun values => List.Forall₂ post items values := by
  induction items with
  | nil => exact pure .nil
  | cons item items ih =>
    rw [List.forall_mem_cons] at h
    exact h.1.bind fun value hvalue => (ih h.2).bind fun values hvalues => pure (.cons hvalue hvalues)

end Ensures

/-! ### Ending -/

/-- From every state. -/
def Ends (program : Draw ε α) : Prop :=
  ∀ state, ∃ outcome : Drawn α × ε, outcome.1 ≠ .drawing ∧ ∃ least, ∀ rounds ≥ least, program rounds state = outcome

/-- From every state something is accepted sooner or later. -/
def Fair (step : DrawStep ε α) (accept : α → Option β) : Prop :=
  ∀ state, ∃ n value, (step ((fun state => (step state).2)^[n] state)).1 = some value ∧ (accept value).isSome

namespace Ends

variable {program : Draw ε α}

theorem pure (value : α) : Ends (Pure.pure value : Draw ε α) := fun state =>
  ⟨(.drawn value, state), by simp, 0, fun _ _ => rfl⟩

theorem fail : Ends (Draw.fail : Draw ε α) := fun state => ⟨(.failed, state), by simp, 0, fun _ _ => rfl⟩

theorem ofOption (value : Option α) : Ends (Draw.ofOption value : Draw ε α) := by
  cases value with
  | none => exact fail
  | some value => exact pure value

theorem once (step : DrawStep ε α) : Ends (Draw.once step) := by
  intro state
  refine ⟨Draw.once step 0 state, ?_, 0, fun _ _ => rfl⟩
  rw [Draw.once]
  rcases step state with ⟨none | value, next⟩
  · simp
  · simp

theorem bind (h : Ends program) {next : α → Draw ε β} (hnext : ∀ value, Ends (next value)) : Ends (program >>= next) := by
  intro state
  obtain ⟨⟨outcome, after⟩, hended, least, hruns⟩ := h state
  cases outcome with
  | drawing => exact absurd rfl hended
  | failed =>
    refine ⟨(.failed, after), by simp, least, fun rounds hrounds => ?_⟩
    rw [bind_apply, hruns rounds hrounds]
  | drawn value =>
    obtain ⟨outcome, hended', least', hruns'⟩ := hnext value after
    refine ⟨outcome, hended', max least least', fun rounds hrounds => ?_⟩
    rw [bind_apply, hruns rounds (le_of_max_le_left hrounds)]
    exact hruns' rounds (le_of_max_le_right hrounds)

theorem retry {step : DrawStep ε α} {accept : α → Option β} (h : Sure step) (hfair : Fair step accept) :
    Ends (Draw.retry step accept) := by
  intro state
  obtain ⟨n, value, hvalue, haccept⟩ := hfair state
  induction n generalizing state with
  | zero =>
    obtain ⟨first, next, hstep⟩ := h state
    obtain ⟨accepted, haccepted⟩ := Option.isSome_iff_exists.mp haccept
    rw [Function.iterate_zero_apply, hstep] at hvalue
    obtain rfl := Option.some.inj hvalue
    refine ⟨(.drawn accepted, next), by simp, 1, fun rounds hrounds => ?_⟩
    obtain ⟨rounds, rfl⟩ := Nat.exists_eq_succ_of_ne_zero (by omega : rounds ≠ 0)
    rw [Draw.retry, hstep]
    simp only [haccepted]
  | succ n ih =>
    obtain ⟨first, next, hstep⟩ := h state
    rw [Function.iterate_succ_apply, hstep] at hvalue
    cases hfirst : accept first with
    | some accepted =>
      refine ⟨(.drawn accepted, next), by simp, 1, fun rounds hrounds => ?_⟩
      obtain ⟨rounds, rfl⟩ := Nat.exists_eq_succ_of_ne_zero (by omega : rounds ≠ 0)
      rw [Draw.retry, hstep]
      simp only [hfirst]
    | none =>
      -- the first value is rejected, and there is one round less to go
      obtain ⟨outcome, hended, least, hruns⟩ := ih next hvalue
      refine ⟨outcome, hended, least + 1, fun rounds hrounds => ?_⟩
      obtain ⟨rounds, rfl⟩ := Nat.exists_eq_succ_of_ne_zero (by omega : rounds ≠ 0)
      rw [Draw.retry, hstep]
      simp only [hfirst]
      exact hruns rounds (by omega)

theorem forEach {body : ι → Draw ε α} {items : List ι} (h : ∀ item ∈ items, Ends (body item)) :
    Ends (Draw.forEach body items) := by
  induction items with
  | nil => exact pure []
  | cons item items ih =>
    rw [List.forall_mem_cons] at h
    exact h.1.bind fun value => (ih h.2).bind fun values => pure (value :: values)

end Ends

/-- A program that does not fail, and ends, draws something. -/
theorem exists_drawn {program : Draw ε α} {post : α → Prop} (h : Ensures program post) (hends : Ends program) (state : ε) :
    ∃ rounds value, (program rounds state).1 = .drawn value := by
  obtain ⟨outcome, hended, least, hruns⟩ := hends state
  have hmeets := h least state
  refine ⟨least, ?_⟩
  rw [hruns least le_rfl] at hmeets ⊢
  cases houtcome : outcome.1 with
  | drawing => exact absurd houtcome hended
  | failed =>
    rw [houtcome] at hmeets
    exact hmeets.elim
  | drawn value => exact ⟨value, rfl⟩

/-! ### The first that is accepted -/

/-- What is drawn after so many others. -/
def nth (step : DrawStep ε α) (n : ℕ) (state : ε) : Option α := (step ((fun state => (step state).2)^[n] state)).1

/-- In so many rounds the first that is accepted gives this. -/
def FirstAccepted (step : DrawStep ε α) (accept : α → Option β) (rounds : ℕ) (state : ε) (accepted : β) : Prop :=
  ∃ n < rounds, (∃ value, nth step n state = some value ∧ accept value = some accepted) ∧
    ∀ m < n, ∃ value, nth step m state = some value ∧ accept value = none

theorem nth_zero (step : DrawStep ε α) (state : ε) : nth step 0 state = (step state).1 := rfl

theorem nth_succ (step : DrawStep ε α) (n : ℕ) (state : ε) : nth step (n + 1) state = nth step n (step state).2 := by
  rw [nth, nth, Function.iterate_succ_apply]

/-- Where the first is rejected, it is the first of the others. -/
theorem firstAccepted_succ_of_reject {step : DrawStep ε α} {accept : α → Option β} {rounds : ℕ} {state : ε} {accepted : β}
    {value : α} (hvalue : (step state).1 = some value) (hreject : accept value = none) :
    FirstAccepted step accept (rounds + 1) state accepted ↔ FirstAccepted step accept rounds (step state).2 accepted := by
  constructor
  · rintro ⟨n, hn, ⟨taken, htaken, haccept⟩, hbefore⟩
    cases n with
    | zero =>
      rw [nth_zero, hvalue, Option.some.injEq] at htaken
      rw [← htaken, hreject] at haccept
      cases haccept
    | succ n =>
      rw [nth_succ] at htaken
      refine ⟨n, by omega, ⟨taken, htaken, haccept⟩, fun m hm => ?_⟩
      obtain ⟨rejected, hrejected, hnone⟩ := hbefore (m + 1) (by omega)
      exact ⟨rejected, (nth_succ step m state).symm.trans hrejected, hnone⟩
  · rintro ⟨n, hn, ⟨taken, htaken, haccept⟩, hbefore⟩
    refine ⟨n + 1, by omega, ⟨taken, (nth_succ step n state).trans htaken, haccept⟩, fun m hm => ?_⟩
    cases m with
    | zero => exact ⟨value, hvalue, hreject⟩
    | succ m =>
      obtain ⟨rejected, hrejected, hnone⟩ := hbefore m (by omega)
      exact ⟨rejected, (nth_succ step m state).trans hrejected, hnone⟩

/-- A loop draws what the first accepted value gives. -/
theorem retry_eq_drawn_iff {step : DrawStep ε α} {accept : α → Option β} {rounds : ℕ} {state : ε} {accepted : β} :
    (retry step accept rounds state).1 = .drawn accepted ↔ FirstAccepted step accept rounds state accepted := by
  induction rounds generalizing state with
  | zero => simp [retry, FirstAccepted]
  | succ rounds ih =>
    rw [retry]
    cases hstep : step state with
    | mk outcome after =>
      cases outcome with
      | none =>
        have hnone : ¬ FirstAccepted step accept (rounds + 1) state accepted := by
          rintro ⟨n, -, ⟨value, hvalue, -⟩, hbefore⟩
          cases n with
          | zero => simp [nth_zero, hstep] at hvalue
          | succ n =>
            obtain ⟨first, hfirst, -⟩ := hbefore 0 (Nat.succ_pos n)
            simp [nth_zero, hstep] at hfirst
        simp [hnone]
      | some value =>
        have hvalue : (step state).1 = some value := by rw [hstep]
        cases haccept : accept value with
        | none =>
          simp only [haccept]
          rw [firstAccepted_succ_of_reject hvalue haccept, ih, hstep]
        | some taken =>
          simp only [haccept, Drawn.drawn.injEq]
          constructor
          · rintro rfl
            exact ⟨0, Nat.succ_pos rounds, ⟨value, hvalue, haccept⟩, by simp⟩
          · rintro ⟨n, -, ⟨first, hfirst, hgives⟩, hbefore⟩
            cases n with
            | zero =>
              rw [nth_zero, hvalue, Option.some.injEq] at hfirst
              rw [← hfirst, haccept] at hgives
              exact Option.some.inj hgives
            | succ n =>
              obtain ⟨rejected, hrejected, hnone⟩ := hbefore 0 (Nat.succ_pos n)
              rw [nth_zero, hvalue, Option.some.injEq] at hrejected
              rw [← hrejected, haccept] at hnone
              cases hnone

/-! ### Words that are written down beforehand -/

section

variable {σ : Type} {words words' : List σ} {program : Draw (List σ) α} {post : α → Prop} {post' : β → Prop}

/-- With these words before any others, the program fails, or takes them and no more and draws
what is described. -/
def Follows (words : List σ) (program : Draw (List σ) α) (post : α → Prop) : Prop :=
  ∀ rest, ((program 1 (words ++ rest)).1 = .failed) ∨
    ∃ value, program 1 (words ++ rest) = (.drawn value, rest) ∧ post value

def Offers (program : Draw (List σ) α) (post : α → Prop) : Prop := ∃ words, Follows words program post

theorem Follows.pure {value : α} (h : post value) : Follows ([] : List σ) (Pure.pure value : Draw (List σ) α) post :=
  fun _ => .inr ⟨value, rfl, h⟩

theorem Follows.fail : Follows ([] : List σ) (Draw.fail : Draw (List σ) α) post := fun _ => .inl rfl

theorem Follows.bind (h : Follows words program post) {next : α → Draw (List σ) β}
    (hnext : ∀ value, post value → Follows words' (next value) post') :
    Follows (words ++ words') (program >>= next) post' := by
  intro rest
  rw [List.append_assoc, bind_apply]
  rcases h (words' ++ rest) with hfailed | ⟨value, hvalue, hpost⟩
  · left
    cases hrun : program 1 (words ++ (words' ++ rest)) with
    | mk outcome after =>
      rw [hrun] at hfailed
      simp only at hfailed
      rw [hfailed]
  · rw [hvalue]
    exact hnext value hpost rest

theorem Follows.mono (h : Follows words program post) {wider : α → Prop} (himp : ∀ value, post value → wider value) :
    Follows words program wider :=
  fun rest => (h rest).imp_right fun ⟨value, hvalue, hpost⟩ => ⟨value, hvalue, himp value hpost⟩

/-- Each item has its own words. -/
theorem Offers.forEach {body : ι → Draw (List σ) α} {post : ι → α → Prop} {items : List ι}
    (h : ∀ item ∈ items, Offers (body item) (post item)) :
    Offers (Draw.forEach body items) fun values => List.Forall₂ post items values := by
  induction items with
  | nil => exact ⟨[], .pure .nil⟩
  | cons item items ih =>
    rw [List.forall_mem_cons] at h
    obtain ⟨⟨words, hwords⟩, hitems⟩ := h
    obtain ⟨words', hwords'⟩ := ih hitems
    refine ⟨words ++ (words' ++ []), hwords.bind fun value hvalue => hwords'.bind fun values hvalues => ?_⟩
    exact .pure (.cons hvalue hvalues)

end

end Draw

end Kmsrs
