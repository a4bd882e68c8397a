import Kmsrs.Lib.Rows

/-! A machine behind a byte stream. A framer cuts frames off the front of a
buffer and never changes its mind when more arrives; a reactor answers one
frame at a time and may hang up. The machine fed a stream in pieces, emptying
its buffer of frames after each piece, does what it does when fed the whole
stream at once: the cuts are invisible. -/

namespace Kmsrs.Feed

variable {β φ S O : Type*}

/-- Cutting frames off the front of a buffer. A frame found stays found, with
the same extent, however many bytes follow. -/
structure Framer (β φ : Type*) where
  next : List β → Option (φ × List β)
  next_append : ∀ {buf f rest}, next buf = some (f, rest) →
    ∀ more, next (buf ++ more) = some (f, rest ++ more)
  next_shorter : ∀ {buf f rest}, next buf = some (f, rest) → rest.length < buf.length

/-- The answer to one frame. -/
structure Reaction (S O : Type*) where
  state : S
  output : List O
  closed : Bool

/-- Where a machine stands between reads: waiting with the bytes of an
unfinished frame, or hung up, after which nothing is read. -/
inductive Status (β : Type*) where
  | waiting (left : List β)
  | closed

/-- The state, all output so far and the status. -/
structure Outcome (β S O : Type*) where
  state : S
  output : List O
  status : Status β

variable (F : Framer β φ) (react : S → φ → Reaction S O)

/-- Answer every complete frame in the buffer. -/
def drain (s : S) (buf : List β) : Outcome β S O :=
  match _h : F.next buf with
  | none => ⟨s, [], .waiting buf⟩
  | some (f, rest) =>
    let r := react s f
    if r.closed then ⟨r.state, r.output, .closed⟩
    else
      let o := drain r.state rest
      ⟨o.state, r.output ++ o.output, o.status⟩
termination_by buf.length
decreasing_by exact F.next_shorter _h

variable {F react}

theorem drain_none {s : S} {buf : List β} (h : F.next buf = none) :
    drain F react s buf = ⟨s, [], .waiting buf⟩ := by
  unfold drain
  split
  · rfl
  · simp_all

theorem drain_closed {s : S} {buf rest : List β} {f : φ} (h : F.next buf = some (f, rest))
    (hc : (react s f).closed = true) :
    drain F react s buf = ⟨(react s f).state, (react s f).output, .closed⟩ := by
  rw [drain]
  split
  · simp_all
  · rename_i f' rest' h'
    rw [h] at h'
    cases h'
    simp [hc]

theorem drain_open {s : S} {buf rest : List β} {f : φ} (h : F.next buf = some (f, rest))
    (hc : (react s f).closed = false) :
    drain F react s buf =
      ⟨(drain F react (react s f).state rest).state,
        (react s f).output ++ (drain F react (react s f).state rest).output,
        (drain F react (react s f).state rest).status⟩ := by
  rw [drain]
  split
  · simp_all
  · rename_i f' rest' h'
    rw [h] at h'
    cases h'
    simp [hc]

variable (F react)

/-- Continue after an outcome with more bytes; a machine that hung up reads none. -/
def Outcome.more (o : Outcome β S O) (bytes : List β) : Outcome β S O :=
  match o.status with
  | .closed => o
  | .waiting left =>
    let o' := drain F react o.state (left ++ bytes)
    ⟨o'.state, o.output ++ o'.output, o'.status⟩

/-- Feed a stream in the given pieces. -/
def feed (o : Outcome β S O) : List (List β) → Outcome β S O
  | [] => o
  | bytes :: pieces => feed (o.more F react bytes) pieces

variable {F react}

theorem more_of_waiting {o : Outcome β S O} {left : List β} (h : o.status = .waiting left) (bytes : List β) :
    o.more F react bytes =
      ⟨(drain F react o.state (left ++ bytes)).state, o.output ++ (drain F react o.state (left ++ bytes)).output,
        (drain F react o.state (left ++ bytes)).status⟩ := by
  simp only [Outcome.more, h]

theorem feed_closed {o : Outcome β S O} (h : o.status = .closed) (pieces : List (List β)) :
    feed F react o pieces = o := by
  induction pieces with
  | nil => rfl
  | cons bytes pieces ih =>
    have hmore : o.more F react bytes = o := by simp [Outcome.more, h]
    rw [feed, hmore, ih]

/-- Draining a longer buffer is draining the shorter one and then the rest. -/
theorem drain_append (s : S) (buf bytes : List β) :
    drain F react s (buf ++ bytes) = (drain F react s buf).more F react bytes := by
  induction hn : buf.length using Nat.strong_induction_on generalizing s buf with
  | _ n ih =>
    cases h : F.next buf with
    | none =>
      rw [drain_none h]
      simp [Outcome.more]
    | some fr =>
      obtain ⟨f, rest⟩ := fr
      have happ := F.next_append h bytes
      have hlt := F.next_shorter h
      cases hc : (react s f).closed with
      | true =>
        rw [drain_closed happ hc, drain_closed h hc]
        simp [Outcome.more]
      | false =>
        rw [drain_open happ hc, drain_open h hc, ih rest.length (hn ▸ hlt) _ rest rfl]
        cases hs : (drain F react (react s f).state rest).status <;>
          simp [Outcome.more, hs]

/-- Feeding pieces is feeding the stream they make up. -/
theorem feed_flatten (s : S) (buf : List β) (pieces : List (List β)) :
    feed F react (drain F react s buf) pieces = drain F react s (buf ++ pieces.flatten) := by
  induction pieces generalizing buf with
  | nil => simp [feed]
  | cons bytes pieces ih =>
    rw [feed, ← drain_append, ih, List.flatten_cons, List.append_assoc]

end Kmsrs.Feed
