import Kmsrs.Lib.Run
import Kmsrs.Os.Timers

/-! How often the client sends. Every retransmission sets a deadline of its own,
seconds ahead; the deadline after an ACK is the server's renewal time, which may
be the moment of the ACK itself. -/

namespace Kmsrs.Os

open Duration

/-- Whether the caller is asked to send something. -/
def Action.sends : Action → Bool
  | .broadcast _ | .unicast _ _ => true
  | .configure _ | .deconfigure | .note _ => false

theorem any_sends_notes (notes : List Text) : (notes.map Action.note).any Action.sends = false := by
  induction notes with
  | nil => rfl
  | cons note notes ih => exact ih

/-- An ACK whose lease is to be renewed at once: option 58 says so, or it is
missing and half of the lease is less than a second. -/
def RenewsAtOnce (message : Message) : Prop :=
  optionSeconds message .renewal = some 0 ∨
    optionSeconds message .renewal = none ∧
      ∃ lasts, optionSeconds message .addressLeaseTime = some lasts ∧ lasts < fromSecs 2

namespace Lease

/-- Whether a message is a NAK that the client gives up its lease for. -/
def refuses (lease : Lease) (message : Message) : Bool :=
  message.xid = lease.xid ∧ message.chaddr = lease.mac.toList ∧ message.opts.msgType = some .nak ∧
    (lease.state = .requesting ∨ lease.state = .renewing ∨ lease.state = .rebinding)

/-- Whether the client asks for the lease it holds when its timer fires, and then
waits for half of what is left. -/
def asksAtHalf (lease : Lease) (now : ℕ) : Bool :=
  match lease.state with
  | .bound | .renewing => true
  | .rebinding => !lease.expired now
  | .init | .selecting | .requesting => false

/-! ### Deadlines -/

/-- A jittered deadline lies three seconds ahead, and a second before the end of
the clock. -/
theorem jittered_bounds (lease : Lease) {now after : ℕ} (hafter : firstBackoff ≤ after) :
    min (now + fromSecs 3) (longest - fromSecs 1) ≤ (lease.jittered now after).1 ∧
      (lease.jittered now after).1 ≤ longest - fromSecs 1 := by
  simp only [jittered, nextNoise, saturatingAdd, firstBackoff, fromSecs] at hafter ⊢
  omega

theorem discover_bounds (lease : Lease) (now : ℕ) :
    min (now + fromSecs 3) (longest - fromSecs 1) ≤ (lease.discover now).2.deadline ∧
      (lease.discover now).2.deadline ≤ longest - fromSecs 1 := by
  obtain ⟨noisy, hdeadline⟩ : ∃ noisy : Lease, (lease.discover now).2.deadline = (noisy.jittered now firstBackoff).1 :=
    ⟨_, rfl⟩
  rw [hdeadline]
  exact noisy.jittered_bounds le_rfl

theorem acceptOffer_bounds (lease : Lease) {message : Message} (h : message.yiaddr.isUnspecified = false) (now : ℕ) :
    min (now + fromSecs 3) (longest - fromSecs 1) ≤ (lease.acceptOffer message now).2.deadline ∧
      (lease.acceptOffer message now).2.deadline ≤ longest - fromSecs 1 := by
  obtain ⟨noisy, hdeadline⟩ : ∃ noisy : Lease,
      (lease.acceptOffer message now).2.deadline = (noisy.jittered now firstBackoff).1 := by
    rw [acceptOffer, h]
    exact ⟨_, rfl⟩
  rw [hdeadline]
  exact noisy.jittered_bounds le_rfl

/-- Doubling never leaves less than the first interval. -/
theorem firstBackoff_le_doubled {backoff : ℕ} (h : firstBackoff ≤ backoff) :
    firstBackoff ≤ min (saturatingMul backoff 2) maxBackoff := by
  have hlongest : firstBackoff ≤ longest := by decide
  have hmax : firstBackoff ≤ maxBackoff := by decide
  simp only [saturatingMul]
  omega

theorem retransmit_backoff (lease : Lease) (h : firstBackoff ≤ lease.backoff) (now : ℕ) :
    firstBackoff ≤ (lease.retransmit now).2.backoff := by
  have hdouble := firstBackoff_le_doubled h
  obtain ⟨mac, state, xid, noise, began, deadline, backoff, attempts, held, wanted, offeredBy⟩ := lease
  cases state with
  | selecting | requesting => exact hdouble
  | renewing => cases held <;> exact h
  | init | bound | rebinding => exact h

theorem retransmit_bounds (lease : Lease) (h : firstBackoff ≤ lease.backoff)
    (hstate : lease.state = .selecting ∨ lease.state = .requesting) (now : ℕ) :
    min (now + fromSecs 3) (longest - fromSecs 1) ≤ (lease.retransmit now).2.deadline ∧
      (lease.retransmit now).2.deadline ≤ longest - fromSecs 1 := by
  have hdouble := firstBackoff_le_doubled h
  obtain ⟨noisy, hdeadline⟩ : ∃ noisy : Lease, (lease.retransmit now).2.deadline =
      (noisy.jittered now (min (saturatingMul lease.backoff 2) maxBackoff)).1 := by
    rcases hstate with hs | hs <;> simp only [retransmit, hs] <;> exact ⟨_, rfl⟩
  rw [hdeadline]
  exact noisy.jittered_bounds hdouble

theorem halfway_bounds (now target : ℕ) :
    min (now + fromSecs 60) longest ≤ halfway now target ∧ halfway now target ≤ longest := by
  simp only [halfway, saturatingAdd, minRetry]
  omega

theorem retransmit_halfway (lease : Lease) (hstate : lease.state = .renewing ∨ lease.state = .rebinding) (now : ℕ) :
    ∃ target, (lease.retransmit now).2.deadline = halfway now target := by
  rcases hstate with hs | hs
  · cases hheld : lease.held <;> simp only [retransmit, hs, hheld] <;> exact ⟨_, rfl⟩
  · simp only [retransmit, hs]
    exact ⟨_, rfl⟩

/-! ### Timers -/

/-- What a timer that fires at `now` leaves: something is sent, and the next
deadline is a second away unless the clock ends before. -/
structure Woken (lease : Lease) (now : ℕ) (out : List Action × Lease) : Prop where
  sends : out.1.any Action.sends = true
  backoff : firstBackoff ≤ out.2.backoff
  running : out.2.state ≠ .init
  le_longest : out.2.deadline ≤ longest
  selecting : out.2.state = .selecting → out.2.deadline ≤ longest - fromSecs 1
  spaced : now + fromSecs 1 ≤ out.2.deadline ↔ now + fromSecs (if lease.asksAtHalf now then 1 else 2) ≤ longest

theorem Woken.of_jittered {lease : Lease} {now : ℕ} {out : List Action × Lease}
    (hsends : out.1.any Action.sends = true) (hbackoff : firstBackoff ≤ out.2.backoff)
    (hrunning : out.2.state ≠ .init) (hasks : lease.asksAtHalf now = false)
    (hbounds : min (now + fromSecs 3) (longest - fromSecs 1) ≤ out.2.deadline ∧
      out.2.deadline ≤ longest - fromSecs 1) : Woken lease now out where
  sends := hsends
  backoff := hbackoff
  running := hrunning
  le_longest := hbounds.2.trans (Nat.sub_le _ _)
  selecting _ := hbounds.2
  spaced := by
    rw [hasks]
    simp only [fromSecs, Bool.false_eq_true, if_false] at hbounds ⊢
    omega

theorem Woken.of_halfway {lease : Lease} {now target : ℕ} {out : List Action × Lease}
    (hsends : out.1.any Action.sends = true) (hbackoff : firstBackoff ≤ out.2.backoff)
    (hrunning : out.2.state ≠ .init ∧ out.2.state ≠ .selecting) (hasks : lease.asksAtHalf now = true)
    (hdeadline : out.2.deadline = halfway now target) : Woken lease now out where
  sends := hsends
  backoff := hbackoff
  running := hrunning.1
  le_longest := hdeadline ▸ (halfway_bounds now target).2
  selecting h := absurd h hrunning.2
  spaced := by
    have hbounds := halfway_bounds now target
    rw [hasks, hdeadline]
    simp only [fromSecs, if_true] at hbounds ⊢
    omega

theorem retransmit_any_sends (lease : Lease) (h : lease.state ≠ .init ∧ lease.state ≠ .bound) (now : ℕ) :
    (lease.retransmit now).1.any Action.sends = true := by
  obtain ⟨mac, state, xid, noise, began, deadline, backoff, attempts, held, wanted, offeredBy⟩ := lease
  cases state with
  | init => exact absurd rfl h.1
  | bound => exact absurd rfl h.2
  | renewing => cases held <;> rfl
  | selecting | requesting | rebinding => rfl

theorem woken_onTime {lease : Lease} (h : lease.Sound) (hbackoff : firstBackoff ≤ lease.backoff) (now : ℕ) :
    Woken lease now (lease.onTime now) := by
  have hmoves := lease.moves_onTime now
  revert hmoves
  generalize hevent : Event.timeout now = event
  generalize lease.onTime now = out
  intro hmoves
  cases hmoves with
  | ignores | requests | binds | refused => cases hevent
  | restarts now' notes hstate =>
    cases hevent
    have hasks : lease.asksAtHalf now = false := by
      rcases hstate with hs | ⟨hs | hs, -⟩ <;> rw [asksAtHalf, hs]
    refine .of_jittered ?_ le_rfl (by simp) hasks (lease.discover_bounds now)
    rw [List.any_append, any_sends_notes]
    rfl
  | resends now' hstate =>
    cases hevent
    have hsame := (lease.retransmit_keeps now).2.1
    have hasks : lease.asksAtHalf now = false := by
      rcases hstate with hs | hs <;> rw [asksAtHalf, hs]
    refine .of_jittered (lease.retransmit_any_sends ?_ now) (lease.retransmit_backoff hbackoff now) ?_ hasks
      (lease.retransmit_bounds hbackoff hstate now)
    · rcases hstate with hs | hs <;> simp [hs]
    · rw [hsame]
      rcases hstate with hs | hs <;> simp [hs]
  | renews now' hstate =>
    cases hevent
    obtain ⟨held, hheld⟩ := h.exists_held (by rw [hstate]; rfl)
    have hasks : lease.asksAtHalf now = true := by rw [asksAtHalf, hstate]
    refine .of_halfway ?_ ?_ ?_ hasks (beginRenewing_deadline hheld now)
    · rw [beginRenewing, hheld]
      rfl
    · rw [beginRenewing, hheld]
      exact hbackoff
    · rw [(beginRenewing_of_held hheld now).2.1]
      simp
  | rebinds now' hstate =>
    cases hevent
    have hasks : lease.asksAtHalf now = true := by rw [asksAtHalf, hstate]
    have hrebinding := (lease.beginRebinding_leaves now).2.1
    exact .of_halfway rfl hbackoff ⟨by simp [hrebinding], by simp [hrebinding]⟩ hasks rfl
  | asksAgain now' hstate =>
    cases hevent
    have hsame := (lease.retransmit_keeps now).2.1
    have hstates : lease.state = .renewing ∨ lease.state = .rebinding :=
      hstate.imp And.left And.left
    have hasks : lease.asksAtHalf now = true := by
      rcases hstate with ⟨hs, -⟩ | ⟨hs, hexpired⟩
      · rw [asksAtHalf, hs]
      · simp [asksAtHalf, hs, hexpired]
    obtain ⟨target, hdeadline⟩ := lease.retransmit_halfway hstates now
    refine .of_halfway (lease.retransmit_any_sends ?_ now) (lease.retransmit_backoff hbackoff now) ?_ hasks hdeadline
    · rcases hstates with hs | hs <;> simp [hs]
    · rw [hsame]
      rcases hstates with hs | hs <;> simp [hs]
  | givesUp now' hstate hexpired =>
    cases hevent
    have hasks : lease.asksAtHalf now = false := by simp [asksAtHalf, hstate, hexpired]
    exact .of_jittered rfl le_rfl (by simp [giveUp]) hasks (({ lease with held := none } : Lease).discover_bounds now)

/-! ### Messages -/

/-- The four things that a message does. -/
theorem onMessage_cases (lease : Lease) (message : Message) (now : ℕ) :
    (lease.onMessage message now = ([], lease) ∧ lease.binding message = false ∧ lease.refuses message = false) ∨
    (lease.onMessage message now = lease.acceptOffer message now ∧ lease.state = .selecting ∧
      message.yiaddr.isUnspecified = false ∧ lease.binding message = false ∧ lease.refuses message = false) ∨
    (lease.onMessage message now = lease.acceptAck message now ∧ lease.binding message = true ∧
      lease.refuses message = false) ∨
    (lease.onMessage message now = lease.acceptNak message now ∧ lease.binding message = false ∧
      lease.refuses message = true) := by
  cases hrefuses : lease.refuses message with
  | true =>
    simp only [refuses, decide_eq_true_eq] at hrefuses
    obtain ⟨hxid, hchaddr, hkind, hstate⟩ := hrefuses
    refine .inr (.inr (.inr ⟨?_, by simp [binding, hkind], rfl⟩))
    rcases hstate with hs | hs | hs <;> simp [onMessage, hxid, hchaddr, hkind, hs]
  | false =>
    have hmoves := lease.moves_onMessage message now
    revert hmoves
    generalize hevent : Event.message message now = event
    generalize hout : lease.onMessage message now = out
    intro hmoves
    cases hmoves with
    | restarts | resends | renews | rebinds | asksAgain | givesUp => cases hevent
    | ignores _ _ hbinding =>
      cases hevent
      exact .inl ⟨rfl, hbinding, rfl⟩
    | requests _ _ hstate hoffered =>
      cases hevent
      exact .inr (.inl ⟨rfl, hstate, hoffered, by simp [binding, hstate], rfl⟩)
    | binds _ _ hbinding =>
      cases hevent
      exact .inr (.inr (.inl ⟨rfl, hbinding, rfl⟩))
    | refused _ _ hstate hbinding hkind =>
      cases hevent
      have hother : message.xid ≠ lease.xid ∨ message.chaddr ≠ lease.mac.toList := by
        by_contra hours
        rw [not_or, not_not, not_not] at hours
        simp [refuses, hours, hkind, hstate] at hrefuses
      rw [← hout]
      exact .inl ⟨next_of_not_ours hother now, hbinding, rfl⟩

/-- The deadline of a lease just granted is the moment it is to be renewed. -/
theorem acceptAck_deadline {lease : Lease} {message : Message} (h : lease.binding message = true) (now : ℕ) :
    (lease.acceptAck message now).2.deadline = (granted message (lease.ackAddress message) now).t1 := by
  rw [acceptAck, address_of_binding h]
  rfl

/-- Renewal waits for a second at least, or does not wait. -/
theorem renewal_cases (message : Message) (address : Ipv4Addr) (now : ℕ) :
    (RenewsAtOnce message ∧ (granted message address now).t1 = saturatingAdd now 0) ∨
      (¬ RenewsAtOnce message ∧ saturatingAdd now (fromSecs 1) ≤ (granted message address now).t1) := by
  have hconfig : (configuration message address).lease = optionSeconds message .addressLeaseTime := rfl
  have hsecond : fromSecs 1 ≤ longest := by decide
  cases hrenewal : optionSeconds message .renewal with
  | some t1 =>
    obtain ⟨seconds, rfl⟩ := optionSeconds_eq_some hrenewal
    rcases Nat.eq_zero_or_pos seconds.toNat with hzero | hpos
    · left
      simp [RenewsAtOnce, granted, hrenewal, hzero, fromSecs]
    · right
      have hle : fromSecs 1 ≤ fromSecs seconds.toNat := fromSecs_mono hpos
      have hne : fromSecs seconds.toNat ≠ 0 := by simp only [fromSecs] at hle ⊢; omega
      refine ⟨by simp [RenewsAtOnce, hrenewal, hne], ?_⟩
      simpa [granted, hrenewal] using saturatingAdd_mono hle
  | none =>
    cases hlasts : optionSeconds message .addressLeaseTime with
    | none =>
      right
      refine ⟨by simp [RenewsAtOnce, hrenewal, hlasts], ?_⟩
      simpa [granted, hrenewal, hconfig, hlasts, fraction] using saturatingAdd_mono hsecond
    | some lasts =>
      obtain ⟨seconds, rfl⟩ := optionSeconds_eq_some hlasts
      rcases Nat.lt_or_ge seconds.toNat 2 with hshort | hlong
      · left
        have hhalf : seconds.toNat / 2 = 0 := by omega
        have hlt : fromSecs seconds.toNat < fromSecs 2 := by simp only [fromSecs]; omega
        refine ⟨.inr ⟨hrenewal, _, hlasts, hlt⟩, ?_⟩
        simp only [granted, hrenewal, hconfig, hlasts, fraction_half, Option.none_or, Option.getD_some, hhalf]
        rfl
      · right
        have hle : fromSecs 1 ≤ fromSecs (seconds.toNat / 2) := fromSecs_mono (by omega)
        have hge : ¬ fromSecs seconds.toNat < fromSecs 2 := by simp only [fromSecs]; omega
        refine ⟨by simp [RenewsAtOnce, hrenewal, hlasts, hge], ?_⟩
        simpa [granted, hrenewal, hconfig, hlasts, fraction_half] using saturatingAdd_mono hle

end Lease

/-! ### Runs -/

/-- A client under a clock, with the moments that its pace is measured from. -/
structure Watched where
  lease : Lease
  clock : ℕ
  /-- When the timer last made the client send. -/
  woken : Option ℕ
  /-- When a server last refused. -/
  refused : Option ℕ

namespace Watched

def new (mac : Vector UInt8 6) (seed : UInt32) (start : ℕ) : Watched := ⟨.new mac seed start, start, none, none⟩

/-- Time runs forward to its end, and the timer does not fire before the
deadline; a message may come at any time. -/
def Allows (w : Watched) (event : Event) : Prop :=
  w.clock ≤ event.now ∧ event.now ≤ longest ∧
    match event with
    | .timeout now => w.lease.deadline ≤ now
    | .message _ _ => True

instance (w : Watched) (event : Event) : Decidable (w.Allows event) := by
  unfold Allows
  cases event <;> infer_instance

def next (w : Watched) (event : Event) : Watched :=
  if w.Allows event then
    { lease := (w.lease.next event).2
      clock := event.now
      woken := match event with
        | .timeout now => if (w.lease.next event).1.any Action.sends then some now else w.woken
        | .message _ _ => w.woken
      refused := match event with
        | .timeout _ => w.refused
        | .message message now => if w.lease.refuses message then some now else w.refused }
  else w

/-- Whatever comes next, a timer that makes the client send fires a second or more
after the last one that did, and nothing is sent in the ten seconds after a
refusal. -/
def Paced (w : Watched) : Prop :=
  ∀ event, w.Allows event → (w.lease.next event).1.any Action.sends = true →
    (∀ now, event = .timeout now → ∀ woken, w.woken = some woken → woken + fromSecs 1 ≤ now) ∧
      ∀ refused, w.refused = some refused → refused + fromSecs 10 ≤ event.now

/-- The condition: the clock does not end at once, and no ACK less than a second
after the timer is for a lease to be renewed at once. -/
def Steady (w : Watched) (event : Event) : Prop :=
  w.Allows event →
    match event with
    | .timeout now => now + fromSecs (if w.lease.asksAtHalf now then 1 else 2) ≤ longest
    | .message message now =>
      (w.lease.binding message = true → RenewsAtOnce message →
        ∀ woken, w.woken = some woken → woken + fromSecs 1 ≤ now) ∧
      (w.lease.refuses message = true → now + fromSecs 10 ≤ longest)

/-- What every run keeps, whatever the server does. -/
structure Sound (w : Watched) : Prop where
  lease : w.lease.Sound
  backoff : firstBackoff ≤ w.lease.backoff
  woken_le : ∀ woken, w.woken = some woken → woken ≤ w.clock
  deadline_le : w.clock ≤ longest → w.lease.deadline ≤ longest
  selecting : w.lease.state = .selecting → w.lease.deadline ≤ longest - fromSecs 1

theorem sound_new (mac : Vector UInt8 6) (seed : UInt32) (start : ℕ) : (new mac seed start).Sound where
  lease := Lease.sound_new mac seed start
  backoff := le_rfl
  woken_le _ h := by cases h
  deadline_le h := h
  selecting h := by cases h

theorem next_timeout {w : Watched} {now : ℕ} (h : w.Allows (.timeout now)) (hsound : w.Sound) :
    w.next (.timeout now) = ⟨(w.lease.onTime now).2, now, some now, w.refused⟩ := by
  rw [next, if_pos h]
  simp only [Lease.next, (Lease.woken_onTime hsound.lease hsound.backoff now).sends, if_true, Event.now]

theorem next_message {w : Watched} {message : Message} {now : ℕ} (h : w.Allows (.message message now)) :
    w.next (.message message now) = ⟨(w.lease.onMessage message now).2, now, w.woken,
      if w.lease.refuses message then some now else w.refused⟩ := by
  rw [next, if_pos h]
  rfl

theorem next_of_not_allows {w : Watched} {event : Event} (h : ¬ w.Allows event) : w.next event = w := if_neg h

theorem sound_next {w : Watched} (h : w.Sound) (event : Event) : (w.next event).Sound := by
  by_cases hallows : w.Allows event
  · have hlease := (Lease.step_spec h.lease (w.lease.moves event)).1
    cases event with
    | timeout now =>
      have hwoken := Lease.woken_onTime h.lease h.backoff now
      rw [next_timeout hallows h]
      exact ⟨hlease, hwoken.backoff, fun _ hsome => (Option.some.inj hsome).ge, fun _ => hwoken.le_longest,
        hwoken.selecting⟩
    | message message now =>
      obtain ⟨hclock, hnow, -⟩ : w.clock ≤ now ∧ now ≤ longest ∧ True := hallows
      have hwoken : ∀ woken, w.woken = some woken → woken ≤ now :=
        fun woken hsome => (h.woken_le woken hsome).trans hclock
      rw [next_message ⟨hclock, hnow, trivial⟩]
      rw [Lease.next] at hlease
      rcases w.lease.onMessage_cases message now with ⟨hout, -⟩ | ⟨hout, -, hoffered, -⟩ | ⟨hout, hbinding, -⟩ | ⟨hout, -⟩
      · rw [hout]
        exact ⟨h.lease, h.backoff, hwoken, fun _ => h.deadline_le (hclock.trans hnow), h.selecting⟩
      · have hbounds := w.lease.acceptOffer_bounds hoffered now
        have hbackoff : (w.lease.acceptOffer message now).2.backoff = firstBackoff := by
          rw [Lease.acceptOffer, hoffered]
          rfl
        rw [hout] at hlease ⊢
        exact ⟨hlease, hbackoff.ge, hwoken, fun _ => hbounds.2.trans (Nat.sub_le _ _), fun _ => hbounds.2⟩
      · have hdeadline := Lease.acceptAck_deadline hbinding now
        have hbound := (Lease.acceptAck_of_address (Lease.address_of_binding hbinding) now).2.1
        have hbackoff : (w.lease.acceptAck message now).2.backoff = w.lease.backoff := by
          rw [Lease.acceptAck, Lease.address_of_binding hbinding]
          rfl
        rw [hout] at hlease ⊢
        refine ⟨hlease, h.backoff.trans hbackoff.ge, hwoken, fun _ => ?_, fun hselecting => ?_⟩
        · rw [hdeadline]
          exact saturatingAdd_le_longest _ _
        · rw [hbound] at hselecting
          cases hselecting
      · rw [hout] at hlease ⊢
        exact ⟨hlease, h.backoff, hwoken, fun _ => saturatingAdd_le_longest _ _, fun hselecting => by cases hselecting⟩
  · rwa [next_of_not_allows hallows]

/-- The pace as an invariant: the next deadline is spaced from the last time the
timer fired, and a refusal is waited out where no message is looked at. -/
structure Even (w : Watched) : Prop where
  spaced : ∀ woken, w.woken = some woken → woken + fromSecs 1 ≤ max w.clock w.lease.deadline
  rested : ∀ refused, w.refused = some refused →
    refused + fromSecs 10 ≤ w.clock ∨ w.lease.state = .init ∧ refused + fromSecs 10 ≤ w.lease.deadline

theorem Even.of {lease : Lease} {clock : ℕ} {woken? refused? : Option ℕ}
    (hspaced : ∀ woken, woken? = some woken → woken + fromSecs 1 ≤ max clock lease.deadline)
    (hrested : ∀ refused, refused? = some refused →
      refused + fromSecs 10 ≤ clock ∨ lease.state = .init ∧ refused + fromSecs 10 ≤ lease.deadline) :
    Even ⟨lease, clock, woken?, refused?⟩ := ⟨hspaced, hrested⟩

theorem even_new (mac : Vector UInt8 6) (seed : UInt32) (start : ℕ) : (new mac seed start).Even where
  spaced _ h := by cases h
  rested _ h := by cases h

/-- In a state that is not the first one a refusal has been waited out. -/
theorem Even.rested_of_ne {w : Watched} (h : w.Even) (hstate : w.lease.state ≠ .init) {now : ℕ} (hclock : w.clock ≤ now)
    {refused : ℕ} (hrefused : w.refused = some refused) : refused + fromSecs 10 ≤ now := by
  rcases h.rested refused hrefused with hpast | ⟨hinit, -⟩
  · exact hpast.trans hclock
  · exact absurd hinit hstate

theorem even_timeout {w : Watched} (hsound : w.Sound) (h : w.Even) {now : ℕ} (hallows : w.Allows (.timeout now))
    (hsteady : w.Steady (.timeout now)) : (w.next (.timeout now)).Even := by
  rw [next_timeout hallows hsound]
  refine .of (fun woken hwoken => ?_) fun refused hrefused => .inl ?_
  · obtain rfl : now = woken := Option.some.inj hwoken
    exact le_max_of_le_right ((Lease.woken_onTime hsound.lease hsound.backoff now).spaced.mpr (hsteady hallows))
  · obtain ⟨hclock, -, hdeadline⟩ := hallows
    rcases h.rested refused hrefused with hpast | ⟨-, hpast⟩
    · exact hpast.trans hclock
    · exact hpast.trans hdeadline

/-- A deadline that keeps its distance, or stands where the last one can not have
passed it, keeps the spacing. -/
theorem spaced_of_ahead {woken clock now deadline deadline' : ℕ} (hspaced : woken + fromSecs 1 ≤ max clock deadline)
    (hwoken : woken ≤ clock) (hclock : clock ≤ now)
    (hahead : now + fromSecs 1 ≤ deadline' ∨ deadline ≤ deadline') : woken + fromSecs 1 ≤ max now deadline' := by
  omega

theorem even_message {w : Watched} (hsound : w.Sound) (h : w.Even) {message : Message} {now : ℕ}
    (hallows : w.Allows (.message message now)) (hsteady : w.Steady (.message message now)) :
    (w.next (.message message now)).Even := by
  obtain ⟨hclock, hnow, -⟩ : w.clock ≤ now ∧ now ≤ longest ∧ True := hallows
  obtain ⟨honce, hrefusal⟩ := hsteady ⟨hclock, hnow, trivial⟩
  have hend := hsound.deadline_le (hclock.trans hnow)
  rw [next_message ⟨hclock, hnow, trivial⟩]
  rcases w.lease.onMessage_cases message now with ⟨hout, -, hrefuses⟩ | ⟨hout, hstate, hoffered, -, hrefuses⟩ |
    ⟨hout, hbinding, hrefuses⟩ | ⟨hout, -, hrefuses⟩
  · rw [hout, hrefuses]
    refine .of (fun woken hwoken => (h.spaced woken hwoken).trans (max_le_max_right _ hclock)) fun refused hrefused => ?_
    exact (h.rested refused hrefused).imp_left fun hpast => hpast.trans hclock
  · have hahead : now + fromSecs 1 ≤ (w.lease.acceptOffer message now).2.deadline ∨
        w.lease.deadline ≤ (w.lease.acceptOffer message now).2.deadline := by
      have hbounds := (w.lease.acceptOffer_bounds hoffered now).1
      have hlast := hsound.selecting hstate
      have hthree : fromSecs 1 ≤ fromSecs 3 := fromSecs_mono (by decide)
      omega
    rw [hout, hrefuses]
    refine .of (fun woken hwoken => ?_) fun refused hrefused => .inl (h.rested_of_ne (by simp [hstate]) hclock hrefused)
    exact spaced_of_ahead (h.spaced woken hwoken) (hsound.woken_le woken hwoken) hclock hahead
  · have hstate : w.lease.state ≠ .init := by
      intro hinit
      simp [Lease.binding, hinit] at hbinding
    rw [hout, hrefuses]
    refine .of (fun woken hwoken => ?_) fun refused hrefused => .inl (h.rested_of_ne hstate hclock hrefused)
    rcases Lease.renewal_cases message (w.lease.ackAddress message) now with ⟨hat, -⟩ | ⟨-, hlater⟩
    · exact le_max_of_le_left (honce hbinding hat woken hwoken)
    · rw [← Lease.acceptAck_deadline hbinding now] at hlater
      refine spaced_of_ahead (h.spaced woken hwoken) (hsound.woken_le woken hwoken) hclock ?_
      unfold saturatingAdd at hlater
      omega
  · have hdeadline : (w.lease.acceptNak message now).2.deadline = saturatingAdd now afterNak := rfl
    rw [hout, hrefuses]
    refine .of (fun woken hwoken => ?_) fun refused hrefused => .inr ⟨rfl, ?_⟩
    · refine spaced_of_ahead (h.spaced woken hwoken) (hsound.woken_le woken hwoken) hclock ?_
      have hten : fromSecs 1 ≤ afterNak := fromSecs_mono (by decide)
      rw [hdeadline]
      unfold saturatingAdd
      omega
    · obtain rfl : now = refused := Option.some.inj hrefused
      have hroom := hrefusal hrefuses
      rw [hdeadline]
      exact le_min le_rfl hroom

theorem even_next {w : Watched} (hsound : w.Sound) (h : w.Even) {event : Event} (hsteady : w.Steady event) :
    (w.next event).Even := by
  by_cases hallows : w.Allows event
  · cases event with
    | timeout now => exact even_timeout hsound h hallows hsteady
    | message message now => exact even_message hsound h hallows hsteady
  · rwa [next_of_not_allows hallows]

/-- In the first state no message makes the client send. -/
theorem silent_of_init {lease : Lease} (h : lease.state = .init) (message : Message) (now : ℕ) :
    (lease.onMessage message now).1.any Action.sends = false := by
  rcases lease.onMessage_cases message now with ⟨hout, -⟩ | ⟨-, hstate, -⟩ | ⟨-, hbinding, -⟩ | ⟨-, -, hrefuses⟩
  · rw [hout]
    rfl
  · rw [h] at hstate
    cases hstate
  · simp [Lease.binding, h] at hbinding
  · simp [Lease.refuses, h] at hrefuses

theorem paced_of_even {w : Watched} (h : w.Even) : w.Paced := by
  intro event hallows hsends
  cases event with
  | timeout now =>
    obtain ⟨hclock, -, hdeadline⟩ : w.clock ≤ now ∧ now ≤ longest ∧ w.lease.deadline ≤ now := hallows
    constructor
    · rintro now' heq woken hwoken
      obtain rfl : now = now' := Event.timeout.inj heq
      exact (h.spaced woken hwoken).trans (max_le hclock hdeadline)
    · intro refused hrefused
      rcases h.rested refused hrefused with hpast | ⟨-, hpast⟩
      · exact hpast.trans hclock
      · exact hpast.trans hdeadline
  | message message now =>
    obtain ⟨hclock, -⟩ : w.clock ≤ now ∧ _ := hallows
    refine ⟨fun now' heq => (nomatch heq), fun refused hrefused => ?_⟩
    have hstate : w.lease.state ≠ .init := by
      intro hinit
      rw [Lease.next, silent_of_init hinit] at hsends
      cases hsends
    exact h.rested_of_ne hstate hclock hrefused

/-- A paced client is paced at the earliest moment its timer can fire. -/
theorem Paced.earliest {w : Watched} (h : w.Paced) (hsound : w.Sound) (hclock : w.clock ≤ longest) :
    (∀ woken, w.woken = some woken → woken + fromSecs 1 ≤ max w.clock w.lease.deadline) ∧
      ∀ refused, w.refused = some refused → refused + fromSecs 10 ≤ max w.clock w.lease.deadline := by
  have hend := hsound.deadline_le hclock
  obtain ⟨hspaced, hrested⟩ := h (.timeout (max w.clock w.lease.deadline))
    ⟨le_max_left _ _, max_le hclock hend, le_max_right _ _⟩
    (Lease.woken_onTime hsound.lease hsound.backoff _).sends
  exact ⟨hspaced _ rfl, hrested⟩

theorem steady_of_paced {w : Watched} (hsound : w.Sound) {event : Event} (h : (w.next event).Paced) :
    w.Steady event := by
  intro hallows
  have hsound' := sound_next hsound event
  cases event with
  | timeout now =>
    have hwoken := Lease.woken_onTime hsound.lease hsound.backoff now
    rw [next_timeout hallows hsound] at h hsound'
    have hspaced := (h.earliest hsound' hallows.2.1).1 now rfl
    refine hwoken.spaced.mp ((le_max_iff.mp hspaced).resolve_left ?_)
    exact Nat.not_le.mpr (Nat.lt_add_of_pos_right (by decide))
  | message message now =>
    rw [next_message hallows] at h hsound'
    obtain ⟨hspaced, hrested⟩ := h.earliest hsound' hallows.2.1
    refine ⟨fun hbinding hat woken hwoken => ?_, fun hrefuses => ?_⟩
    · have hout : w.lease.onMessage message now = w.lease.acceptAck message now := Lease.next_of_binding hbinding now
      have hdeadline : (w.lease.acceptAck message now).2.deadline ≤ now := by
        rw [Lease.acceptAck_deadline hbinding]
        rcases Lease.renewal_cases message (w.lease.ackAddress message) now with ⟨-, hnow⟩ | ⟨hlater, -⟩
        · rw [hnow]
          exact min_le_left _ _
        · exact absurd hat hlater
      have hlast := hspaced woken hwoken
      rw [hout] at hlast
      exact hlast.trans (max_le le_rfl hdeadline)
    · rcases w.lease.onMessage_cases message now with ⟨-, -, hnot⟩ | ⟨-, -, -, -, hnot⟩ | ⟨-, -, hnot⟩ | ⟨hout, -, -⟩
      · rw [hrefuses] at hnot
        cases hnot
      · rw [hrefuses] at hnot
        cases hnot
      · rw [hrefuses] at hnot
        cases hnot
      · have hlast := hrested now (if_pos hrefuses)
        rw [hout] at hlast
        refine ((le_max_iff.mp hlast).resolve_left ?_).trans (saturatingAdd_le_longest now afterNak)
        exact Nat.not_le.mpr (Nat.lt_add_of_pos_right (by decide))

/-- A run is paced throughout exactly when no lease in it is renewed at once
within a second of the timer and the clock does not end. -/
theorem paced_iff (mac : Vector UInt8 6) (seed : UInt32) (start : ℕ) (events : List Event) :
    (∀ w ∈ events.scanl next (new mac seed start), w.Paced) ↔
      ∀ transition ∈ path next (new mac seed start) events, transition.1.Steady transition.2 := by
  constructor
  · intro hpaced transition hmem
    have hsound := Runs.invariant_path Sound (sound_new mac seed start) (fun _ event h => sound_next h event) events
      transition hmem
    exact steady_of_paced hsound (hpaced _ (next_mem_scanl hmem))
  · intro hsteady w hmem
    have heven := forall_scanl_of_path (I := fun w => w.Sound ∧ w.Even)
      (fun _ event h hs => ⟨sound_next h.1 event, even_next h.1 h.2 hs⟩)
      ⟨sound_new mac seed start, even_new mac seed start⟩ events hsteady w hmem
    exact paced_of_even heven.2

/-- The exchange that grants an hour, to be renewed at once. -/
def atOnce : List Event :=
  let xid : UInt32 := xorshift 1 ||| 1
  [.timeout 0, .message (Clocked.reply xid .offer []) 0,
    .message (Clocked.reply xid .ack [.addressLeaseTime 3600, .renewal 0]) 0]

/-- The timer fires twice in one moment, for a server that wants a lease to be
renewed as soon as it is granted. -/
theorem renewed_at_once :
    ¬ ∀ (mac : Vector UInt8 6) (seed : UInt32) (start : ℕ) (events : List Event),
      ∀ w ∈ events.scanl next (new mac seed start), w.Paced := by
  intro h
  have hpaced := h #v[2, 0, 0, 0, 0, 1] 1 0 atOnce (atOnce.foldl next (new #v[2, 0, 0, 0, 0, 1] 1 0))
    (List.mem_of_getElem? (i := 3) rfl)
  obtain ⟨hspaced, -⟩ := hpaced (.timeout 0) (by decide +kernel) (by decide +kernel)
  exact absurd (hspaced 0 rfl 0 (by decide +kernel)) (by decide)

end Watched

end Kmsrs.Os
