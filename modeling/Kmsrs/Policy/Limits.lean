import Kmsrs.Policy.Access

/-! Runs of the rate limiter. Seen from one key, a run is a sequence of calls on
one token bucket, which is forgotten when another source takes its place. What
is allowed in a window and what is never refused are then facts about that token
bucket. -/

namespace Kmsrs.Policy.Access

open Kmsrs.Kms Kmsrs.Wire

/-- One call of `admit`. -/
structure Attempt where
  address : IpAddr
  application : Guid
  now : Instant
deriving DecidableEq

def Attempt.key (a : Attempt) : IpAddr × Guid := (canonical a.address, a.application)

namespace RateLimiter

def attempt (limiter : RateLimiter) (a : Attempt) : Admission × RateLimiter :=
  limiter.admitFor a.address a.application a.now

def run (limiter : RateLimiter) (attempts : List Attempt) : RateLimiter :=
  attempts.foldl (fun limiter a => (limiter.attempt a).2) limiter

/-- The calls of a run with their answers. -/
def answered (limiter : RateLimiter) : List Attempt → List (Attempt × Admission)
  | [] => []
  | a :: attempts => (a, (limiter.attempt a).1) :: answered (limiter.attempt a).2 attempts

/-- The bucket that gives way to a new key. -/
def displaced (limiter : RateLimiter) (a : Attempt) : Option Bucket :=
  Slots.evicted Bucket.key (fun bucket => bucket.lastSeen.toNat) maxTrackedSources a.key limiter.buckets

/-- What a call means to the bucket of a key. -/
def eventOf (key : IpAddr × Guid) (limiter : RateLimiter) (a : Attempt) : List TokenBucket.Event :=
  if a.key = key then [.call a.now.toNat]
  else if (limiter.displaced a).map Bucket.key = some key then [.forget]
  else []

def events (key : IpAddr × Guid) (limiter : RateLimiter) : List Attempt → List TokenBucket.Event
  | [] => []
  | a :: attempts => eventOf key limiter a ++ events key (limiter.attempt a).2 attempts

variable {limiter : RateLimiter} {key : IpAddr × Guid}

@[simp] theorem run_nil (limiter : RateLimiter) : limiter.run [] = limiter := rfl

theorem run_concat (limiter : RateLimiter) (attempts : List Attempt) (a : Attempt) :
    limiter.run (attempts ++ [a]) = ((limiter.run attempts).attempt a).2 := by
  simp [run, List.foldl_append]

theorem answered_concat (limiter : RateLimiter) (attempts : List Attempt) (a : Attempt) :
    limiter.answered (attempts ++ [a]) =
      limiter.answered attempts ++ [(a, ((limiter.run attempts).attempt a).1)] := by
  induction attempts generalizing limiter with
  | nil => rfl
  | cons first attempts ih => simp [answered, ih, run]

theorem events_concat (key : IpAddr × Guid) (limiter : RateLimiter) (attempts : List Attempt) (a : Attempt) :
    events key limiter (attempts ++ [a]) =
      events key limiter attempts ++ eventOf key (limiter.run attempts) a := by
  induction attempts generalizing limiter with
  | nil => simp [events]
  | cons first attempts ih => simp [events, ih, run]

/-- What holds of every limiter a run reaches from an empty one. -/
structure Sound (burst refillPerSecond : UInt32) (limiter : RateLimiter) : Prop where
  sameBurst : limiter.burst = burst
  sameRefill : limiter.refillPerSecond = refillPerSecond
  bounded : limiter.buckets.length ≤ maxTrackedSources
  distinct : (limiter.buckets.map Bucket.key).Nodup
  full : ∀ bucket ∈ limiter.buckets, bucket.tokens.toNat ≤ burst.toNat
  canonicalised : ∀ bucket ∈ limiter.buckets, canonical bucket.address = bucket.address

section Sound

variable {burst refillPerSecond : UInt32}

theorem attempt_snd (limiter : RateLimiter) (a : Attempt) :
    (limiter.attempt a).2 =
      { limiter with
        buckets := Slots.store Bucket.key (fun bucket => bucket.lastSeen.toNat) maxTrackedSources
          (limiter.fresh (canonical a.address) a.application a.now) limiter.buckets
          (limiter.settled a.address a.application a.now) } := by
  rw [attempt, admit_eq]

theorem sound_withBounds (burst refillPerSecond : UInt32) :
    Sound burst refillPerSecond (withBounds burst refillPerSecond) :=
  ⟨rfl, rfl, Nat.zero_le _, List.nodup_nil, by simp [RateLimiter.withBounds], by simp [RateLimiter.withBounds]⟩

theorem Sound.meter_eq (h : Sound burst refillPerSecond limiter) :
    limiter.meter = (RateLimiter.withBounds burst refillPerSecond).meter := by
  simp only [RateLimiter.meter, h.sameBurst, h.sameRefill, RateLimiter.withBounds]

theorem Sound.attempt (h : Sound burst refillPerSecond limiter) (a : Attempt) :
    Sound burst refillPerSecond (limiter.attempt a).2 := by
  have hpos : 0 < maxTrackedSources := by decide
  have hkey := limiter.settled_key a.address a.application a.now
  rw [attempt_snd]
  refine ⟨h.sameBurst, h.sameRefill, Slots.length_store_le hpos h.bounded,
    Slots.nodup_store hpos h.distinct hkey, fun bucket hbucket => ?_, fun bucket hbucket => ?_⟩
  · rcases (Slots.mem_store_iff hpos h.distinct).mp hbucket with rfl | ⟨hold, -⟩
    swap
    · exact h.full bucket hold
    have hcap : limiter.meter.capacity = burst.toNat := by rw [RateLimiter.meter, h.sameBurst]
    have hle : ∀ level, (Slots.lookup Bucket.key (canonical a.address, a.application) limiter.buckets).map
        Bucket.level = some level → level.tokens ≤ limiter.meter.capacity := by
      intro level hlevel
      obtain ⟨found, hfound, rfl⟩ := Option.map_eq_some_iff.mp hlevel
      exact (h.full found (Slots.mem_of_lookup hfound).1).trans hcap.ge
    have hcall := TokenBucket.call_le a.now.toNat hle
    rw [← (limiter.admit_call a.address a.application a.now).2] at hcall
    exact hcall.trans hcap.le
  · rcases (Slots.mem_store_iff hpos h.distinct).mp hbucket with rfl | ⟨hold, -⟩
    · have haddress : (limiter.settled a.address a.application a.now).address = canonical a.address :=
        congrArg Prod.fst hkey
      rw [haddress, canonical_canonical]
    · exact h.canonicalised bucket hold

theorem sound_run (burst refillPerSecond : UInt32) (attempts : List Attempt) :
    Sound burst refillPerSecond ((withBounds burst refillPerSecond).run attempts) := by
  induction attempts using List.reverseRecOn with
  | nil => exact sound_withBounds burst refillPerSecond
  | append_singleton attempts a ih =>
    rw [run_concat]
    exact ih.attempt a

/-- The level of the key's bucket, if it has one. -/
def level? (key : IpAddr × Guid) (limiter : RateLimiter) : Option TokenBucket.Level :=
  (Slots.lookup Bucket.key key limiter.buckets).map Bucket.level

/-- One call moves the key's bucket as its own token bucket moves. -/
theorem Sound.level?_attempt (h : Sound burst refillPerSecond limiter) (key : IpAddr × Guid) (a : Attempt) :
    level? key (limiter.attempt a).2 =
      (eventOf key limiter a).foldl (TokenBucket.step (withBounds burst refillPerSecond).meter)
        (level? key limiter) := by
  have hpos : 0 < maxTrackedSources := by decide
  have hkey : (limiter.settled a.address a.application a.now).key =
      (limiter.fresh (canonical a.address) a.application a.now).key := limiter.settled_key _ _ _
  by_cases hsame : a.key = key
  · subst hsame
    have hself : Slots.lookup Bucket.key a.key (limiter.attempt a).2.buckets =
        some (limiter.settled a.address a.application a.now) := by
      rw [attempt_snd]
      exact Slots.lookup_store_self hpos h.distinct hkey
    rw [eventOf, if_pos rfl, List.foldl_cons, List.foldl_nil, TokenBucket.step, ← h.meter_eq, level?, hself,
      Option.map_some, (limiter.admit_call a.address a.application a.now).2]
    rfl
  · have hother : Slots.lookup Bucket.key key (limiter.attempt a).2.buckets =
        if (limiter.displaced a).map Bucket.key = some key then none
        else Slots.lookup Bucket.key key limiter.buckets := by
      rw [attempt_snd]
      exact Slots.lookup_store_of_ne hpos h.distinct hkey (Ne.symm hsame)
    rw [eventOf, if_neg hsame, level?, hother]
    split_ifs
    · rfl
    · rfl

/-- Seen from one key, a run is a run of its own token bucket. -/
theorem level?_run (burst refillPerSecond : UInt32) (key : IpAddr × Guid) (attempts : List Attempt) :
    level? key ((withBounds burst refillPerSecond).run attempts) =
      TokenBucket.after (withBounds burst refillPerSecond).meter
        (events key (withBounds burst refillPerSecond) attempts) := by
  induction attempts using List.reverseRecOn with
  | nil => rfl
  | append_singleton attempts a ih =>
    rw [run_concat, (sound_run burst refillPerSecond attempts).level?_attempt, ih, events_concat,
      TokenBucket.after, TokenBucket.after, List.foldl_append]

/-- The readings of the key's calls. -/
def readings (key : IpAddr × Guid) (attempts : List Attempt) : List ℕ :=
  (attempts.filter fun a => a.key = key).map fun a => a.now.toNat

/-- The readings of the key's calls that were allowed. -/
def allowedReadings (key : IpAddr × Guid) (answered : List (Attempt × Admission)) : List ℕ :=
  (answered.filter fun entry => entry.1.key = key ∧ entry.2.isAllowed).map fun entry => entry.1.now.toNat

theorem calls_events (key : IpAddr × Guid) (limiter : RateLimiter) (attempts : List Attempt) :
    TokenBucket.calls (events key limiter attempts) = readings key attempts := by
  induction attempts generalizing limiter with
  | nil => rfl
  | cons a attempts ih =>
    have hsplit : TokenBucket.calls (eventOf key limiter a ++ events key (limiter.attempt a).2 attempts) =
        TokenBucket.calls (eventOf key limiter a) ++ readings key attempts := by
      rw [← ih (limiter.attempt a).2]
      exact List.filterMap_append
    rw [events, hsplit, eventOf]
    by_cases hsame : a.key = key
    · simp [readings, hsame, TokenBucket.calls]
    · rw [if_neg hsame]
      split_ifs <;> simp [readings, hsame, TokenBucket.calls]

theorem allowed_events (burst refillPerSecond : UInt32) (key : IpAddr × Guid) (attempts : List Attempt) :
    TokenBucket.allowed (withBounds burst refillPerSecond).meter
        (events key (withBounds burst refillPerSecond) attempts) =
      allowedReadings key ((withBounds burst refillPerSecond).answered attempts) := by
  induction attempts using List.reverseRecOn with
  | nil => rfl
  | append_singleton attempts a ih =>
    have hsound := sound_run burst refillPerSecond attempts
    rw [events_concat, answered_concat, allowedReadings, List.filter_append, List.map_append,
      ← allowedReadings, ← ih, eventOf]
    by_cases hsame : a.key = key
    · subst hsame
      have hcall := (((withBounds burst refillPerSecond).run attempts).admit_call a.address a.application a.now).1
      have hlevel := level?_run burst refillPerSecond a.key attempts
      rw [if_pos rfl, TokenBucket.allowed_concat_call, ← hlevel, ← hsound.meter_eq]
      rw [level?, Attempt.key, ← hcall, ← attempt]
      congr 1
      cases hanswer : (((withBounds burst refillPerSecond).run attempts).attempt a).1.isAllowed with
      | true => simp [hanswer, Attempt.key]
      | false => simp [hanswer]
    · rw [if_neg hsame]
      split_ifs <;> simp [hsame]

end Sound

/-! ### What a window allows -/

/-- Readings that never decrease. -/
def Monotone (attempts : List Attempt) : Prop := attempts.Pairwise fun a b => a.now ≤ b.now

theorem readings_sorted {attempts : List Attempt} (h : Monotone attempts) (key : IpAddr × Guid) :
    (readings key attempts).Pairwise (· ≤ ·) := by
  refine List.pairwise_map.mpr ((h.sublist List.filter_sublist).imp ?_)
  intro a b hab
  exact UInt64.le_iff_toNat_le.mp hab

/-- The key's bucket never gives way to another. -/
def NeverEvicted (key : IpAddr × Guid) (limiter : RateLimiter) (attempts : List Attempt) : Prop :=
  ∀ before a later, attempts = before ++ a :: later →
    ((limiter.run before).displaced a).map Bucket.key ≠ some key

theorem NeverEvicted.kept {attempts : List Attempt} (h : NeverEvicted key limiter attempts) :
    TokenBucket.Kept (events key limiter attempts) := by
  induction attempts using List.reverseRecOn with
  | nil => simp [TokenBucket.Kept, events]
  | append_singleton attempts a ih =>
    have hbefore : NeverEvicted key limiter attempts := by
      rintro before b later rfl
      exact h before b (later ++ [a]) (by simp)
    intro event hevent
    rw [events_concat, List.mem_append] at hevent
    rcases hevent with hevent | hevent
    · exact ih hbefore event hevent
    · rw [eventOf] at hevent
      split_ifs at hevent with hsame hgone
      · rw [List.mem_singleton.mp hevent]
        simp
      · exact absurd hgone (h attempts a [] rfl)
      · simp at hevent

theorem length_run_le (limiter : RateLimiter) (attempts : List Attempt) :
    (limiter.run attempts).buckets.length ≤ limiter.buckets.length + attempts.length := by
  induction attempts using List.reverseRecOn with
  | nil => simp
  | append_singleton attempts a ih =>
    have hpos : 0 < maxTrackedSources := by decide
    rw [run_concat, attempt_snd, List.length_append, List.length_singleton]
    refine (Slots.length_store_le_succ hpos).trans ?_
    omega

/-- Nothing is evicted from a table that never fills. -/
theorem neverEvicted_of_room (key : IpAddr × Guid) {attempts : List Attempt}
    (h : ∀ before a later, attempts = before ++ a :: later →
      (limiter.run before).buckets.length < maxTrackedSources) : NeverEvicted key limiter attempts := by
  intro before a later heq
  rw [displaced, Slots.evicted_of_lt (h before a later heq)]
  simp

/-- How many of the key's calls with readings in a window were allowed. -/
def allowedWithin (key : IpAddr × Guid) (s t : Instant) (answered : List (Attempt × Admission)) : ℕ :=
  answered.countP fun entry => entry.1.key = key ∧ entry.2.isAllowed ∧ s ≤ entry.1.now ∧ entry.1.now ≤ t

theorem allowedWithin_eq (key : IpAddr × Guid) (s t : Instant) (answered : List (Attempt × Admission)) :
    allowedWithin key s t answered = TokenBucket.within s.toNat t.toNat (allowedReadings key answered) := by
  rw [allowedWithin, TokenBucket.within, allowedReadings, List.countP_map, List.countP_filter]
  refine List.countP_congr fun entry _ => ?_
  simp only [Function.comp, UInt64.le_iff_toNat_le, decide_eq_true_eq, Bool.and_eq_true]
  tauto

/-- A refused call leaves its bucket, and no other key's call refills it. -/
theorem level?_between (burst refillPerSecond : UInt32) (key : IpAddr × Guid) (before between : List Attempt)
    (hbetween : ∀ c ∈ between, c.key ≠ key) :
    level? key ((withBounds burst refillPerSecond).run (before ++ between)) = none ∨
      level? key ((withBounds burst refillPerSecond).run (before ++ between)) =
        level? key ((withBounds burst refillPerSecond).run before) := by
  induction between using List.reverseRecOn with
  | nil => simp
  | append_singleton between c ih =>
    have hother : c.key ≠ key := hbetween c (by simp)
    have hstep := (sound_run burst refillPerSecond (before ++ between)).level?_attempt key c
    rw [eventOf, if_neg hother] at hstep
    rw [← List.append_assoc, run_concat, hstep]
    split_ifs
    · exact .inl rfl
    · exact ih fun d hd => hbetween d (by simp [hd])

/-- A refused call names a wait of at least one second. -/
theorem second_le_of_limited {a : Attempt} {d : ℕ} (h : (limiter.attempt a).1 = .limited d) : second ≤ d := by
  rw [attempt, admit_eq] at h
  split_ifs at h
  rw [← Admission.limited.inj h, retryAfter]
  exact Nat.le_mul_of_pos_left _ (by omega)

/-- A refused call is allowed after the wait it was told. -/
theorem allowed_after_wait (burst refillPerSecond : UInt32) (hburst : 1 ≤ burst.toNat)
    (hrefill : 1 ≤ refillPerSecond.toNat) {before between : List Attempt} {a b : Attempt} {d : ℕ}
    (hclock : Monotone (before ++ [a])) (hkey : b.key = a.key) (hbetween : ∀ c ∈ between, c.key ≠ a.key)
    (hlimited : (((withBounds burst refillPerSecond).run before).attempt a).1 = .limited d)
    (hwait : a.now.toNat + d ≤ b.now.toNat) :
    (((withBounds burst refillPerSecond).run (before ++ [a] ++ between)).attempt b).1.isAllowed := by
  have hcall := (((withBounds burst refillPerSecond).run (before ++ [a] ++ between)).admit_call b.address
    b.application b.now).1
  have hmeter := (sound_run burst refillPerSecond (before ++ [a] ++ between)).meter_eq
  have hcap : 0 < (withBounds burst refillPerSecond).meter.capacity := hburst
  rw [attempt, hcall, hmeter, ← Attempt.key, hkey, ← level?]
  rcases level?_between burst refillPerSecond a.key (before ++ [a]) between hbetween with hnone | hsame
  · rw [hnone]
    exact (TokenBucket.call_of_full hcap [] (TokenBucket.refill_full b.now.toNat)).1
  · rw [hsame, level?_run]
    cases hlevel : TokenBucket.after (withBounds burst refillPerSecond).meter
        (events a.key (withBounds burst refillPerSecond) (before ++ [a])) with
    | none => exact (TokenBucket.call_of_full hcap [] (TokenBucket.refill_full b.now.toNat)).1
    | some level =>
      have hsorted := readings_sorted hclock a.key
      rw [← calls_events a.key (withBounds burst refillPerSecond)] at hsorted
      have hlast : level.last ≤ a.now.toNat := by
        refine TokenBucket.last_le hsorted hlevel fun u hu => ?_
        rw [calls_events] at hu
        obtain ⟨c, hc, rfl⟩ := List.mem_map.mp hu
        rcases List.mem_append.mp (List.mem_filter.mp hc).1 with hc | hc
        · exact UInt64.le_iff_toNat_le.mp ((List.pairwise_append.mp hclock).2.2 c hc a (by simp))
        · rw [List.mem_singleton.mp hc]
      have hsecond := second_le_of_limited hlimited
      have hunit : (withBounds burst refillPerSecond).meter.unit = second := rfl
      exact TokenBucket.call_after_unit hcap hrefill (by omega)

/-- A key whose bucket is never evicted is allowed at most the burst, the seconds of
the window and one second more. -/
theorem allowedWithin_le (burst refillPerSecond : UInt32) {attempts : List Attempt} (hclock : Monotone attempts)
    (hkept : NeverEvicted key (withBounds burst refillPerSecond) attempts) (s t : Instant) :
    allowedWithin key s t ((withBounds burst refillPerSecond).answered attempts) ≤
      burst.toNat + refillPerSecond.toNat * ((t.toNat - s.toNat) / 10 ^ 9) + refillPerSecond.toNat := by
  have hsorted := readings_sorted hclock key
  rw [← calls_events key (withBounds burst refillPerSecond)] at hsorted
  have hbound := TokenBucket.within_allowed_le (m := (withBounds burst refillPerSecond).meter) s.toNat t.toNat
    hkept.kept hsorted
  rw [allowed_events, ← allowedWithin_eq] at hbound
  exact hbound

/-- How many calls of one address with readings in a window were allowed, whatever
application they were charged to. -/
def allowedFrom (address : IpAddr) (s t : Instant) (answered : List (Attempt × Admission)) : ℕ :=
  answered.countP fun entry =>
    canonical entry.1.address = canonical address ∧ entry.2.isAllowed ∧ s ≤ entry.1.now ∧ entry.1.now ≤ t

/-- The calls of an address are those of its keys. -/
theorem allowedFrom_le_sum (address : IpAddr) (s t : Instant) (applications : Finset Guid)
    {answered : List (Attempt × Admission)} (h : ∀ entry ∈ answered, entry.1.application ∈ applications) :
    allowedFrom address s t answered ≤
      ∑ application ∈ applications, allowedWithin (canonical address, application) s t answered := by
  induction answered with
  | nil => exact Nat.zero_le _
  | cons entry answered ih =>
    have hrest := ih fun later hlater => h later (List.mem_cons_of_mem _ hlater)
    have hown : entry.1.application ∈ applications := h entry (List.mem_cons_self ..)
    simp only [allowedFrom, allowedWithin, List.countP_cons, Finset.sum_add_distrib] at hrest ⊢
    refine Nat.add_le_add hrest ?_
    -- the entry is counted for its own application
    refine le_trans ?_ (Finset.single_le_sum (fun _ _ => Nat.zero_le _) hown)
    simp only [Attempt.key, Prod.mk.injEq, and_true, decide_eq_true_eq]
    exact le_rfl

/-- In any run of any limiter: a key whose bucket is never evicted is allowed at
most the burst, the seconds of the window and one second more; no bucket holds
more than the burst; the table is bounded and its keys are distinct; and a call
refused with a wait is allowed after it. -/
theorem window_bound_and_honest_retry (burst refillPerSecond : UInt32) (attempts : List Attempt)
    (hclock : Monotone attempts) :
    (∀ key, NeverEvicted key (withBounds burst refillPerSecond) attempts → ∀ s t,
      allowedWithin key s t ((withBounds burst refillPerSecond).answered attempts) ≤
        burst.toNat + refillPerSecond.toNat * ((t.toNat - s.toNat) / 10 ^ 9) + refillPerSecond.toNat) ∧
    (∀ bucket ∈ ((withBounds burst refillPerSecond).run attempts).buckets, bucket.tokens ≤ burst) ∧
    ((withBounds burst refillPerSecond).run attempts).buckets.length ≤ 4096 ∧
    (((withBounds burst refillPerSecond).run attempts).buckets.map fun bucket =>
      (canonical bucket.address, bucket.application)).Nodup ∧
    (1 ≤ burst → 1 ≤ refillPerSecond → ∀ before a between b later d,
      attempts = before ++ [a] ++ between ++ b :: later → b.key = a.key → (∀ c ∈ between, c.key ≠ a.key) →
      (((withBounds burst refillPerSecond).run before).attempt a).1 = .limited d →
      a.now.toNat + d ≤ b.now.toNat →
      ∃ remaining, (((withBounds burst refillPerSecond).run (before ++ [a] ++ between)).attempt b).1 =
        .allowed remaining) := by
  have hsound := sound_run burst refillPerSecond attempts
  refine ⟨?_, ?_, hsound.bounded, ?_, ?_⟩
  · intro key hkept s t
    exact allowedWithin_le burst refillPerSecond hclock hkept s t
  · intro bucket hbucket
    exact UInt32.le_iff_toNat_le.mpr (hsound.full bucket hbucket)
  · have hkeys : ((withBounds burst refillPerSecond).run attempts).buckets.map
        (fun bucket => (canonical bucket.address, bucket.application)) =
        ((withBounds burst refillPerSecond).run attempts).buckets.map Bucket.key :=
      List.map_congr_left fun bucket hbucket => by rw [hsound.canonicalised bucket hbucket, Bucket.key]
    rw [hkeys]
    exact hsound.distinct
  · rintro hburst hrefill before a between b later d rfl hkey hbetween hlimited hwait
    have hpast : Monotone (before ++ [a]) := by
      refine hclock.sublist ?_
      rw [List.append_assoc]
      exact List.sublist_append_left _ _
    have hallowed := allowed_after_wait burst refillPerSecond (UInt32.le_iff_toNat_le.mp hburst)
      (UInt32.le_iff_toNat_le.mp hrefill) hpast hkey hbetween hlimited hwait
    cases hanswer : (((withBounds burst refillPerSecond).run (before ++ [a] ++ between)).attempt b).1 with
    | allowed remaining => exact ⟨remaining, rfl⟩
    | limited wait =>
      rw [hanswer] at hallowed
      cases hallowed

/-- A call of one key at a reading in milliseconds. -/
def attemptAt (millis : ℕ) : Attempt := ⟨.v4 (.replicate 4 10), Guid.zero, .ofNat (millis * 10 ^ 6)⟩

/-- With one token a second, a second call half a second later is told to wait a
second, and is allowed then. -/
theorem refused_call_returns_after_second :
    ((((withBounds 1 1).run [attemptAt 0]).attempt (attemptAt 500)).1 = .limited (10 ^ 9) ∧
      ∃ remaining, (((withBounds 1 1).run ([attemptAt 0] ++ [attemptAt 500] ++ [])).attempt (attemptAt 1500)).1 =
        .allowed remaining) ∧
    allowedWithin (attemptAt 0).key 0 2000000000
      ((withBounds 1 1).answered [attemptAt 0, attemptAt 500, attemptAt 1500]) ≤ 4 := by
  have hclock : Monotone [attemptAt 0, attemptAt 500, attemptAt 1500] := by
    unfold Monotone
    decide +kernel
  have hlimited : (((withBounds 1 1).run [attemptAt 0]).attempt (attemptAt 500)).1 = .limited (10 ^ 9) := by
    decide +kernel
  have hkept : NeverEvicted (attemptAt 0).key (withBounds 1 1) [attemptAt 0, attemptAt 500, attemptAt 1500] := by
    refine neverEvicted_of_room _ fun before a later heq => ?_
    have hlength := length_run_le (withBounds 1 1) before
    have hbefore := congrArg List.length heq
    simp only [List.length_append, List.length_cons, List.length_nil] at hbefore
    have hempty : (withBounds 1 1).buckets.length = 0 := rfl
    have hcap : maxTrackedSources = 4096 := rfl
    omega
  obtain ⟨hwindow, -, -, -, hretry⟩ :=
    window_bound_and_honest_retry 1 1 [attemptAt 0, attemptAt 500, attemptAt 1500] hclock
  refine ⟨⟨hlimited, ?_⟩, (hwindow _ hkept 0 2000000000).trans (by decide)⟩
  exact hretry (by decide) (by decide) [attemptAt 0] (attemptAt 500) [] (attemptAt 1500) [] _ rfl rfl (by simp)
    hlimited (by decide)

/-! ### Traffic within the limit -/

/-- How many of the key's calls have readings in a window. -/
def callsWithin (key : IpAddr × Guid) (s t : Instant) (attempts : List Attempt) : ℕ :=
  attempts.countP fun a => a.key = key ∧ s ≤ a.now ∧ a.now ≤ t

/-- No window holds more of the key's calls than the burst and its whole seconds
grant. -/
def Conforms (burst refillPerSecond : UInt32) (key : IpAddr × Guid) (attempts : List Attempt) : Prop :=
  ∀ s t, callsWithin key s t attempts ≤
    burst.toNat + refillPerSecond.toNat * ((t.toNat - s.toNat) / 10 ^ 9)

/-- A refill by this call drops no fraction of a second, or fills the bucket. -/
def DropsNothing (limiter : RateLimiter) (a : Attempt) : Prop :=
  ∀ bucket, Slots.lookup Bucket.key a.key limiter.buckets = some bucket →
    second ≤ a.now.saturatingDurationSince bucket.lastRefill →
    second ∣ a.now.saturatingDurationSince bucket.lastRefill ∨
      limiter.burst.toNat ≤ bucket.tokens.toNat +
        a.now.saturatingDurationSince bucket.lastRefill / second * limiter.refillPerSecond.toNat

theorem callsWithin_eq (key : IpAddr × Guid) (s t : Instant) (attempts : List Attempt) :
    callsWithin key s t attempts = TokenBucket.within s.toNat t.toNat (readings key attempts) := by
  rw [callsWithin, TokenBucket.within, readings, List.countP_map, List.countP_filter]
  refine List.countP_congr fun a _ => ?_
  simp only [Function.comp, UInt64.le_iff_toNat_le, decide_eq_true_eq, Bool.and_eq_true]
  tauto

/-- Windows of readings bound every window. -/
theorem Conforms.readings {burst refillPerSecond : UInt32} {attempts : List Attempt}
    (h : Conforms burst refillPerSecond key attempts) :
    TokenBucket.Conforms (withBounds burst refillPerSecond).meter (readings key attempts) := by
  intro s t
  have hreading : ∀ u ∈ RateLimiter.readings key attempts, u < 2 ^ 64 := by
    intro u hu
    obtain ⟨a, -, rfl⟩ := List.mem_map.mp hu
    exact a.now.toNat_lt
  by_cases hs : s < 2 ^ 64
  · have ht : min t (2 ^ 64 - 1) < UInt64.size := by
      have : UInt64.size = 2 ^ 64 := rfl
      omega
    have hclip : TokenBucket.within s t (RateLimiter.readings key attempts) =
        TokenBucket.within (UInt64.ofNat s).toNat (UInt64.ofNat (min t (2 ^ 64 - 1))).toNat
          (RateLimiter.readings key attempts) := by
      rw [UInt64.toNat_ofNat_of_lt' hs, UInt64.toNat_ofNat_of_lt' ht]
      refine List.countP_congr fun u hu => ?_
      have := hreading u hu
      simp only [decide_eq_true_eq]
      omega
    rw [hclip, ← callsWithin_eq]
    refine (h _ _).trans ?_
    rw [UInt64.toNat_ofNat_of_lt' hs, UInt64.toNat_ofNat_of_lt' ht]
    exact Nat.add_le_add_left (Nat.mul_le_mul_left _ (Nat.div_le_div_right (by omega))) _
  · have hnone : TokenBucket.within s t (RateLimiter.readings key attempts) = 0 := by
      rw [TokenBucket.within, List.countP_eq_zero]
      intro u hu
      have := hreading u hu
      simp only [decide_eq_true_eq]
      omega
    rw [hnone]
    exact Nat.zero_le _

/-- A key whose refills drop nothing earns only whole seconds. -/
theorem wholeRefills_of_dropsNothing (burst refillPerSecond : UInt32) {attempts : List Attempt}
    (h : ∀ before a later, attempts = before ++ a :: later → a.key = key →
      DropsNothing ((withBounds burst refillPerSecond).run before) a) :
    TokenBucket.WholeRefills (withBounds burst refillPerSecond).meter
      (events key (withBounds burst refillPerSecond) attempts) := by
  induction attempts using List.reverseRecOn with
  | nil => exact .nil
  | append_singleton attempts a ih =>
    have hbefore := ih fun before b later heq => h before b (later ++ [a]) (by simp [heq])
    rw [events_concat, eventOf]
    split_ifs with hsame hgone
    · refine hbefore.concat fun now hnow level hlevel hunit => ?_
      obtain rfl : a.now.toNat = now := TokenBucket.Event.call.inj hnow
      have hsound := sound_run burst refillPerSecond attempts
      rw [← level?_run] at hlevel
      obtain ⟨bucket, hbucket, rfl⟩ := Option.map_eq_some_iff.mp hlevel
      have hdrops := h attempts a [] rfl hsame bucket (hsame ▸ hbucket)
      rw [hsound.sameBurst, hsound.sameRefill] at hdrops
      refine hdrops ?_
      have hlast : bucket.level.last = bucket.lastRefill.toNat := rfl
      have hsecond : (withBounds burst refillPerSecond).meter.unit = second := rfl
      rw [Instant.saturatingDurationSince]
      omega
    · exact hbefore.concat fun now hnow => by cases hnow
    · simpa using hbefore

theorem map_fst_answered (limiter : RateLimiter) (attempts : List Attempt) :
    (limiter.answered attempts).map Prod.fst = attempts := by
  induction attempts generalizing limiter with
  | nil => rfl
  | cons a attempts ih => simp [answered, ih]

/-- When as many of the key's calls are allowed as were made, all of them are. -/
theorem isAllowed_of_readings_eq {attempts : List Attempt} {entry : Attempt × Admission}
    (h : allowedReadings key (limiter.answered attempts) = readings key attempts)
    (hentry : entry ∈ limiter.answered attempts) (hkey : entry.1.key = key) : entry.2.isAllowed := by
  have hreadings : readings key attempts =
      ((limiter.answered attempts).filter fun e => e.1.key = key).map fun e => e.1.now.toNat := by
    rw [readings]
    nth_rewrite 1 [← map_fst_answered limiter attempts]
    rw [List.filter_map, List.map_map]
    rfl
  have hlength := congrArg List.length (h.trans hreadings)
  rw [allowedReadings, List.length_map, List.length_map] at hlength
  have hfilter : (limiter.answered attempts).filter (fun e => e.1.key = key ∧ e.2.isAllowed) =
      ((limiter.answered attempts).filter fun e => e.1.key = key).filter fun e => e.2.isAllowed := by
    rw [List.filter_filter]
    refine List.filter_congr fun e _ => ?_
    simp [Bool.and_comm]
  rw [hfilter, List.length_filter_eq_length_iff] at hlength
  exact hlength entry (List.mem_filter.mpr ⟨hentry, by simpa using hkey⟩)

/-- Conforming traffic is never refused, in every run in which no refill of the
key short of a full bucket drops a fraction of a second. -/
theorem conforming_allowed_when_nothing_dropped (burst refillPerSecond : UInt32) (hburst : 1 ≤ burst)
    (hrefill : 1 ≤ refillPerSecond) (key : IpAddr × Guid) (attempts : List Attempt) (hclock : Monotone attempts)
    (hconforms : Conforms burst refillPerSecond key attempts)
    (hdrops : ∀ before a later, attempts = before ++ a :: later → a.key = key →
      DropsNothing ((withBounds burst refillPerSecond).run before) a) :
    ∀ entry ∈ (withBounds burst refillPerSecond).answered attempts, entry.1.key = key →
      ∃ remaining, entry.2 = .allowed remaining := by
  have hcap : 0 < (withBounds burst refillPerSecond).meter.capacity := UInt32.le_iff_toNat_le.mp hburst
  have hrate : 0 < (withBounds burst refillPerSecond).meter.rate := UInt32.le_iff_toNat_le.mp hrefill
  have hsorted := readings_sorted hclock key
  have hwindows := hconforms.readings
  rw [← calls_events key (withBounds burst refillPerSecond)] at hsorted hwindows
  have hall := (TokenBucket.allowed_of_conforms hcap hrate hsorted hwindows
    (wholeRefills_of_dropsNothing burst refillPerSecond hdrops)).1
  rw [allowed_events, calls_events] at hall
  intro entry hentry hkey
  have hallowed := isAllowed_of_readings_eq hall hentry hkey
  cases hanswer : entry.2 with
  | allowed remaining => exact ⟨remaining, rfl⟩
  | limited wait =>
    rw [hanswer] at hallowed
    cases hallowed

/-- A second call one whole second later finds a token again. -/
theorem whole_second_apart_allowed :
    ((withBounds 1 1).answered [attemptAt 0, attemptAt 1000]).length = 2 ∧
      ∀ entry ∈ (withBounds 1 1).answered [attemptAt 0, attemptAt 1000], ∃ remaining, entry.2 = .allowed remaining := by
  have hclock : Monotone [attemptAt 0, attemptAt 1000] := by
    unfold Monotone
    decide +kernel
  have hconforms : Conforms 1 1 (attemptAt 0).key [attemptAt 0, attemptAt 1000] := by
    intro s t
    have hreadings : readings (attemptAt 0).key [attemptAt 0, attemptAt 1000] = [0, 1000000000] := by
      decide +kernel
    rw [callsWithin_eq, hreadings, show (1 : UInt32).toNat = 1 from rfl]
    simp only [TokenBucket.within, List.countP_cons, List.countP_nil, decide_eq_true_eq]
    split_ifs <;> omega
  have hdrops : ∀ before a later, [attemptAt 0, attemptAt 1000] = before ++ a :: later →
      a.key = (attemptAt 0).key → DropsNothing ((withBounds 1 1).run before) a := by
    rintro (_ | ⟨first, _ | ⟨_, _⟩⟩) a later heq - bucket hbucket -
    · cases hbucket
    · obtain ⟨rfl, hrest⟩ := List.cons.inj heq
      obtain ⟨rfl, -⟩ := List.cons.inj hrest
      have hfound : Slots.lookup Bucket.key (attemptAt 1000).key ((withBounds 1 1).run [attemptAt 0]).buckets =
          some ⟨.v4 (.replicate 4 10), Guid.zero, 0, 0, 0⟩ := by decide +kernel
      rw [← Option.some.inj (hfound.symm.trans hbucket)]
      exact .inl (by decide +kernel)
    · simp at heq
  refine ⟨by decide +kernel, fun entry hentry => ?_⟩
  have hkey : entry.1.key = (attemptAt 0).key := by
    have : ∀ entry ∈ (withBounds 1 1).answered [attemptAt 0, attemptAt 1000],
      entry.1.key = (attemptAt 0).key := by decide +kernel
    exact this entry hentry
  exact conforming_allowed_when_nothing_dropped 1 1 (by decide) (by decide) _ _ hclock hconforms hdrops entry
    hentry hkey

/-- Four calls 0.9 s apart conform to a burst of two and one a second, but the
refill at 1.8 s drops 0.8 s, and the fourth is refused. -/
theorem conforming_call_refused :
    Monotone [attemptAt 0, attemptAt 900, attemptAt 1800, attemptAt 2700] ∧
      Conforms 2 1 (attemptAt 0).key [attemptAt 0, attemptAt 900, attemptAt 1800, attemptAt 2700] ∧
      (attemptAt 2700, Admission.limited (10 ^ 9)) ∈
        (withBounds 2 1).answered [attemptAt 0, attemptAt 900, attemptAt 1800, attemptAt 2700] := by
  refine ⟨by unfold Monotone; decide +kernel, fun s t => ?_, by decide +kernel⟩
  rw [callsWithin_eq]
  have hreadings : readings (attemptAt 0).key [attemptAt 0, attemptAt 900, attemptAt 1800, attemptAt 2700] =
      [0, 900000000, 1800000000, 2700000000] := by decide +kernel
  rw [hreadings, show (2 : UInt32).toNat = 2 from rfl, show (1 : UInt32).toNat = 1 from rfl]
  simp only [TokenBucket.within, List.countP_cons, List.countP_nil, decide_eq_true_eq]
  split_ifs <;> omega

end RateLimiter

end Kmsrs.Policy.Access
