import Kmsrs.Lib.Run
import Kmsrs.Os.LeaseRun

/-! A lease against the clock. The client is woken exactly at its deadline, so
an address is not used past its lease as long as no deadline lies behind the
expiry. Retries are a minute apart at least and only one of the three states
that hold a lease looks at the expiry, so that depends on how much of the lease
is left when the timer fires. -/

namespace Kmsrs.Os

open Duration

/-- A retry that waits for half the way to `target`, and for a minute at least,
comes no later than the expiry; the last case is the end of the clock. -/
def LeavesRoom (now target expires : ℕ) : Prop :=
  (now + minRetry ≤ expires ∧ now + (target - now) / 2 ≤ expires) ∨ expires = longest

theorem halfway_le_iff {now target expires : ℕ} (h : expires ≤ longest) :
    halfway now target ≤ expires ↔ LeavesRoom now target expires := by
  simp only [halfway, saturatingAdd_le_iff h, LeavesRoom]
  omega

theorem optionSeconds_eq_some {message : Message} {code : OptionCode} {d : ℕ}
    (h : optionSeconds message code = some d) : ∃ seconds : UInt32, d = fromSecs seconds.toNat := by
  obtain ⟨seconds, -, hseconds⟩ := Option.bind_eq_some_iff.mp h
  split_ifs at hseconds
  exact ⟨seconds, (Option.some_inj.mp hseconds).symm⟩

theorem fraction_seconds (seconds : UInt32) {numerator denominator : ℕ} (hn : numerator ≤ 2 ^ 32)
    (hd : denominator ≠ 0) : fraction (some (fromSecs seconds.toNat)) numerator denominator =
      some (fromSecs (seconds.toNat * numerator / denominator)) := by
  have hfits : seconds.toNat * numerator < 2 ^ 64 := by
    calc seconds.toNat * numerator ≤ seconds.toNat * 2 ^ 32 := Nat.mul_le_mul_left _ hn
      _ < 2 ^ 32 * 2 ^ 32 := Nat.mul_lt_mul_of_pos_right seconds.toNat_lt (by norm_num)
  rw [fraction, Option.bind_some, asSecs_fromSecs]
  exact if_pos ⟨hfits, hd⟩

/-- Without option 58 a renewal starts halfway. -/
theorem fraction_half (seconds : UInt32) :
    fraction (some (fromSecs seconds.toNat)) t1Numerator t1Denominator = some (fromSecs (seconds.toNat / 2)) := by
  rw [fraction_seconds seconds (by decide) (by decide), t1Numerator, mul_one, t1Denominator]

namespace Lease

/-- When the address must come off, if a lease that ends is held. -/
def expiry (lease : Lease) : Option ℕ := lease.held.bind (·.expires)

/-- The condition under which a step sets no deadline past the expiry: a timer
that keeps the lease fires with enough of it left, and a server's own renewal
time lies within the lease it grants. -/
def Timely (lease : Lease) : Event → Prop
  | .timeout now => ∀ held, lease.held = some held → ∀ expires, held.expires = some expires →
      match lease.state with
      | .init | .selecting | .requesting => True
      | .bound => LeavesRoom now held.t2 expires
      | .renewing => LeavesRoom now (if held.t2 ≤ now then expires else held.t2) expires
      | .rebinding => expires ≤ now ∨ LeavesRoom now expires expires
  | .message message now => lease.binding message = true →
      ∀ lasts, optionSeconds message .addressLeaseTime = some lasts →
        ∀ t1, optionSeconds message .renewal = some t1 → t1 ≤ lasts ∨ saturatingAdd now lasts = longest

/-- The client is woken no later than its lease ends. -/
def InTime (lease : Lease) : Prop := ∀ expires, lease.expiry = some expires → lease.deadline ≤ expires

/-- An expiry is a time that the clock can show. -/
def Shown (lease : Lease) : Prop := ∀ expires, lease.expiry = some expires → expires ≤ longest

theorem inTime_of_held {lease : Lease} (h : lease.held = none) : lease.InTime := by
  intro expires hexpires
  simp [expiry, h] at hexpires

theorem shown_of_held {lease lease' : Lease} (h : lease.Shown) (hheld : lease'.held = lease.held) : lease'.Shown := by
  intro expires hexpires
  rw [expiry, hheld] at hexpires
  exact h expires hexpires

theorem inTime_iff {lease lease' : Lease} {held : Held} (h : lease.Shown) (hlease : lease.held = some held)
    (hheld : lease'.held = some held) {now : ℕ} {target : ℕ → ℕ}
    (hdeadline : ∀ expires, held.expires = some expires → lease'.deadline = halfway now (target expires)) :
    lease'.InTime ↔ ∀ expires, held.expires = some expires → LeavesRoom now (target expires) expires := by
  have hexpiry : lease'.expiry = held.expires := by rw [expiry, hheld, Option.bind_some]
  have hshown : ∀ expires, held.expires = some expires → expires ≤ longest := by
    intro expires hexpires
    exact h expires (by rw [expiry, hlease, Option.bind_some, hexpires])
  rw [InTime, hexpiry]
  refine forall₂_congr fun expires hexpires => ?_
  rw [hdeadline expires hexpires, halfway_le_iff (hshown expires hexpires)]

theorem retransmit_renewing {lease : Lease} {held : Held} (hstate : lease.state = .renewing)
    (hheld : lease.held = some held) (now : ℕ) : (lease.retransmit now).2.deadline = halfway now held.t2 := by
  simp only [retransmit, hstate, hheld]

theorem retransmit_rebinding {lease : Lease} {held : Held} {expires : ℕ} (hstate : lease.state = .rebinding)
    (hheld : lease.held = some held) (hexpires : held.expires = some expires) (now : ℕ) :
    (lease.retransmit now).2.deadline = halfway now expires := by
  simp only [retransmit, hstate, hheld, Option.bind_some, hexpires, Option.getD_some]

theorem beginRenewing_deadline {lease : Lease} {held : Held} (hheld : lease.held = some held) (now : ℕ) :
    (lease.beginRenewing now).2.deadline = halfway now held.t2 := by
  simp only [beginRenewing, hheld]

theorem beginRebinding_deadline {lease : Lease} {held : Held} {expires : ℕ} (hheld : lease.held = some held)
    (hexpires : held.expires = some expires) (now : ℕ) :
    (lease.beginRebinding now).2.deadline = halfway now expires := by
  simp only [beginRebinding, nextXid, nextNoise, hheld, Option.bind_some, hexpires, Option.getD_some]

/-- The renewal time of a lease that ends, against its end. -/
theorem inTime_granted {lease : Lease} {message : Message} {address : Ipv4Addr} {now : ℕ}
    (hheld : lease.held = some (granted message address now))
    (hdeadline : lease.deadline = (granted message address now).t1) :
    lease.InTime ↔ ∀ lasts, optionSeconds message .addressLeaseTime = some lasts →
      ∀ t1, optionSeconds message .renewal = some t1 → t1 ≤ lasts ∨ saturatingAdd now lasts = longest := by
  have hexpiry : lease.expiry = (optionSeconds message .addressLeaseTime).map (saturatingAdd now) := by
    rw [expiry, hheld, Option.bind_some]
    rfl
  rw [InTime, hexpiry, hdeadline]
  cases hlasts : optionSeconds message .addressLeaseTime with
  | none => simp
  | some lasts =>
    obtain ⟨seconds, rfl⟩ := optionSeconds_eq_some hlasts
    have hconfig : (configuration message address).lease = some (fromSecs seconds.toNat) := hlasts
    simp only [Option.map_some, Option.some_inj, forall_eq', granted, hconfig, fraction_half]
    cases ht1 : optionSeconds message .renewal with
    | none =>
      simpa using saturatingAdd_mono (fromSecs_mono (Nat.div_le_self _ 2))
    | some t1 =>
      simp only [Option.some_or, Option.getD_some, Option.some_inj, forall_eq']
      unfold saturatingAdd
      omega

theorem shown_granted {lease : Lease} {message : Message} {address : Ipv4Addr} {now : ℕ}
    (hheld : lease.held = some (granted message address now)) : lease.Shown := by
  intro expires hexpires
  simp only [expiry, hheld, Option.bind_some, granted, Option.map_eq_some_iff] at hexpires
  obtain ⟨lasts, -, rfl⟩ := hexpires
  exact saturatingAdd_le_longest _ _

/-- One step from a client in time: it is in time again exactly under the
condition. -/
theorem inTime_next_iff {lease : Lease} (h : lease.Sound) (hshown : lease.Shown) (hin : lease.InTime) (event : Event) :
    (lease.next event).2.InTime ↔ lease.Timely event := by
  have hmoves := lease.moves event
  revert hmoves
  generalize lease.next event = out
  intro hmoves
  cases hmoves with
  | ignores message now hbinding =>
    refine ⟨fun _ hbinds => ?_, fun _ => hin⟩
    rw [hbinding] at hbinds
    exact absurd hbinds (by simp)
  | restarts now notes hstate =>
    have hnone : lease.held = none := h.held_eq_none (by rcases hstate with hs | ⟨hs | hs, -⟩ <;> rw [hs] <;> rfl)
    refine ⟨fun _ held hheld => ?_, fun _ => inTime_of_held (by simp [hnone])⟩
    rw [hnone] at hheld
    exact absurd hheld (by simp)
  | resends now hstate hattempts =>
    have hnone : lease.held = none := h.held_eq_none (by rcases hstate with hs | hs <;> rw [hs] <;> rfl)
    refine ⟨fun _ held hheld => ?_, fun _ => inTime_of_held ((lease.retransmit_keeps now).2.2.1.trans hnone)⟩
    rw [hnone] at hheld
    exact absurd hheld (by simp)
  | renews now hstate =>
    obtain ⟨held, hheld⟩ := h.exists_held (by rw [hstate]; rfl)
    have hkept := (beginRenewing_of_held hheld now).2.2.1
    rw [inTime_iff hshown hheld hkept fun _ _ => beginRenewing_deadline hheld now]
    simp [Timely, hheld, hstate]
  | rebinds now hstate ht2 =>
    obtain ⟨held, hheld⟩ := h.exists_held (by rw [hstate]; rfl)
    have hkept := (lease.beginRebinding_leaves now).2.2.1.trans hheld
    have hpast : held.t2 ≤ now := by simpa [pastT2, hheld] using ht2
    rw [inTime_iff hshown hheld hkept fun _ hexpires => beginRebinding_deadline hheld hexpires now]
    simp [Timely, hheld, hstate, hpast]
  | asksAgain now hstate =>
    rcases hstate with ⟨hstate, ht2⟩ | ⟨hstate, hexpired⟩
    · obtain ⟨held, hheld⟩ := h.exists_held (by rw [hstate]; rfl)
      have hkept := (lease.retransmit_keeps now).2.2.1.trans hheld
      have hbefore : ¬ held.t2 ≤ now := by simpa [pastT2, hheld] using ht2
      rw [inTime_iff hshown hheld hkept fun _ _ => retransmit_renewing hstate hheld now]
      simp [Timely, hheld, hstate, hbefore]
    · obtain ⟨held, hheld⟩ := h.exists_held (by rw [hstate]; rfl)
      have hkept := (lease.retransmit_keeps now).2.2.1.trans hheld
      have hbefore : ∀ expires, held.expires = some expires → ¬ expires ≤ now := by
        intro expires hexpires
        simpa [expired, hheld, hexpires] using hexpired
      rw [inTime_iff hshown hheld hkept fun _ hexpires => retransmit_rebinding hstate hheld hexpires now]
      simp only [Timely, hheld, hstate, Option.some_inj, forall_eq']
      exact forall₂_congr fun expires hexpires => by simp [hbefore expires hexpires]
  | givesUp now hstate hexpired =>
    obtain ⟨held, hheld⟩ := h.exists_held (by rw [hstate]; rfl)
    refine ⟨fun _ => ?_, fun _ => inTime_of_held (lease.giveUp_leaves now).2.2.1⟩
    simp only [Timely, hheld, hstate, Option.some_inj, forall_eq']
    intro expires hexpires
    exact Or.inl (by simpa [expired, hheld, hexpires] using hexpired)
  | requests message now hstate hoffered =>
    have hnone : lease.held = none := h.held_eq_none (by rw [hstate]; rfl)
    refine ⟨fun _ hbinds => ?_, fun _ => inTime_of_held ((lease.acceptOffer_of_offered hoffered now).2.2.1.trans hnone)⟩
    exact absurd hbinds (by simp [binding, hstate])
  | binds message now hbinding =>
    have haddress := address_of_binding hbinding
    have hdeadline : (lease.acceptAck message now).2.deadline =
        (granted message (lease.ackAddress message) now).t1 := by
      rw [acceptAck, haddress]
      rfl
    rw [inTime_granted (acceptAck_of_address haddress now).2.2.1 hdeadline]
    exact ⟨fun hlasts _ => hlasts, fun htimely => htimely hbinding⟩
  | refused message now hstate hbinding =>
    refine ⟨fun _ hbinds => ?_, fun _ => inTime_of_held (lease.acceptNak_leaves message now).2.2.1⟩
    rw [hbinding] at hbinds
    exact absurd hbinds (by simp)

theorem shown_next {lease : Lease} (h : lease.Sound) (hshown : lease.Shown) (event : Event) :
    (lease.next event).2.Shown := by
  have hmoves := lease.moves event
  revert hmoves
  generalize lease.next event = out
  intro hmoves
  cases hmoves with
  | ignores => exact hshown
  | restarts now => exact shown_of_held hshown (lease.discover_held now)
  | resends now => exact shown_of_held hshown (lease.retransmit_keeps now).2.2.1
  | renews now hstate =>
    obtain ⟨held, hheld⟩ := h.exists_held (by rw [hstate]; rfl)
    exact shown_of_held hshown ((beginRenewing_of_held hheld now).2.2.1.trans hheld.symm)
  | rebinds now => exact shown_of_held hshown (lease.beginRebinding_leaves now).2.2.1
  | asksAgain now => exact shown_of_held hshown (lease.retransmit_keeps now).2.2.1
  | givesUp now =>
    intro expires hexpires
    simp [expiry, (lease.giveUp_leaves now).2.2.1] at hexpires
  | requests message now _ hoffered =>
    exact shown_of_held hshown (lease.acceptOffer_of_offered hoffered now).2.2.1
  | binds message now hbinding => exact shown_granted (acceptAck_of_address (address_of_binding hbinding) now).2.2.1
  | refused message now =>
    intro expires hexpires
    simp [expiry, (lease.acceptNak_leaves message now).2.2.1] at hexpires

end Lease

/-! ### Timed runs -/

/-- What happens next: the deadline comes, or a message does. -/
inductive Stimulus where
  | deadline
  | message (message : Message) (now : ℕ)
deriving DecidableEq

structure Clocked where
  client : Client
  clock : ℕ
deriving DecidableEq

namespace Clocked

def new (mac : Vector UInt8 6) (seed : UInt32) (start : ℕ) : Clocked := ⟨.new mac seed start, start⟩

/-- The timer fires when the clock reaches the deadline; until then a message
can come at any time from now on. -/
def event? (clocked : Clocked) : Stimulus → Option Event
  | .deadline => some (.timeout (max clocked.clock clocked.client.lease.deadline))
  | .message message now =>
    if clocked.clock ≤ now ∧ now ≤ clocked.client.lease.deadline then some (.message message now) else none

def next (clocked : Clocked) (stimulus : Stimulus) : Clocked :=
  match clocked.event? stimulus with
  | some event => ⟨clocked.client.next event, event.now⟩
  | none => clocked

/-- No deadline lies behind the expiry of the lease held, so that whenever the
client rests with an address on the interface the lease has not run out. -/
def WithinLease (clocked : Clocked) : Prop :=
  ∀ expires, clocked.client.lease.expiry = some expires →
    clocked.client.lease.deadline ≤ expires ∧
      ∀ moment, clocked.clock ≤ moment → moment < clocked.client.lease.deadline →
        settled clocked.client.emitted ≠ none → moment < expires

def Timely (clocked : Clocked) (stimulus : Stimulus) : Prop :=
  ∀ event, clocked.event? stimulus = some event → clocked.client.lease.Timely event

theorem withinLease_iff (clocked : Clocked) : clocked.WithinLease ↔ clocked.client.lease.InTime := by
  refine forall₂_congr fun expires _ => ⟨And.left, fun h => ⟨h, ?_⟩⟩
  intro moment _ hmoment _
  omega

theorem withinLease_next_iff {clocked : Clocked} (h : clocked.client.Sound) (hshown : clocked.client.lease.Shown)
    (hwithin : clocked.WithinLease) (stimulus : Stimulus) :
    (clocked.next stimulus).WithinLease ↔ clocked.Timely stimulus := by
  rw [withinLease_iff] at hwithin ⊢
  rw [next, Timely]
  cases hevent : clocked.event? stimulus with
  | none => simpa using hwithin
  | some event =>
    simp only [Option.some_inj, forall_eq']
    exact Lease.inTime_next_iff h.1 hshown hwithin event

theorem sound_next {clocked : Clocked} (h : clocked.client.Sound ∧ clocked.client.lease.Shown) (stimulus : Stimulus) :
    (clocked.next stimulus).client.Sound ∧ (clocked.next stimulus).client.lease.Shown := by
  rw [next]
  cases clocked.event? stimulus with
  | none => exact h
  | some event => exact ⟨(Client.sound_next h.1 event).1, Lease.shown_next h.1.1 h.2 event⟩

/-- A run stays within its leases exactly when each of its steps leaves room. -/
theorem within_lease_iff (mac : Vector UInt8 6) (seed : UInt32) (start : ℕ) (stimuli : List Stimulus) :
    (∀ clocked ∈ stimuli.scanl next (new mac seed start), clocked.WithinLease) ↔
      ∀ transition ∈ path next (new mac seed start) stimuli, transition.1.Timely transition.2 := by
  have hnone : (new mac seed start).client.lease.held = none := rfl
  refine forall_scanl_iff (I := fun clocked => clocked.client.Sound ∧ clocked.client.lease.Shown)
    (fun _ stimulus h => sound_next h stimulus) (fun _ stimulus h hwithin => withinLease_next_iff h.1 h.2 hwithin stimulus)
    ⟨(Client.sound_run mac seed start []).1, ?_⟩ ?_ stimuli
  · intro expires hexpires
    simp [Lease.expiry, hnone] at hexpires
  · exact (withinLease_iff _).mpr (Lease.inTime_of_held hnone)

/-! ### A lease of one minute -/

/-- A reply of the server 10.0.0.1 about 10.0.0.9. -/
def reply (xid : UInt32) (kind : MessageType) (options : List DhcpOption) : Message :=
  let message := Message.newWithId xid .unspecified #v[10, 0, 0, 9] #v[10, 0, 0, 1] .unspecified [2, 0, 0, 0, 0, 1]
  { message with opts := (.messageType kind :: options).foldl .insert .empty }

/-- The exchange that grants a minute, after which nobody answers. -/
def oneMinute : List Stimulus :=
  let xid : UInt32 := xorshift 1 ||| 1
  [.deadline, .message (reply xid .offer []) 0, .message (reply xid .ack [.addressLeaseTime 60]) 0, .deadline]

/-- At half of a lease of one minute the client waits for another minute, and
keeps the address for thirty seconds too long. -/
theorem minute_overrun :
    ¬ ∀ (mac : Vector UInt8 6) (seed : UInt32) (start : ℕ) (stimuli : List Stimulus),
      ∀ clocked ∈ stimuli.scanl next (new mac seed start), clocked.WithinLease := by
  intro h
  have hlast := (withinLease_iff _).mp (h #v[2, 0, 0, 0, 0, 1] 1 0 oneMinute
    (oneMinute.foldl next (new #v[2, 0, 0, 0, 0, 1] 1 0)) (by decide +kernel))
  exact absurd (hlast (fromSecs 60) (by decide +kernel)) (by decide +kernel)

end Clocked

end Kmsrs.Os
