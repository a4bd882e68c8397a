import Kmsrs.Os.Expiry

/-! The order of a lease's timers: renewing comes before rebinding, and both
come before the lease ends. The timers come from three options of the ACK, each
of which the server may leave out, and a fraction of the lease stands in for
each one that is missing. -/

namespace Kmsrs.Os

open Duration

/-- The timers stand in the order in which the client waits for them. -/
def Held.InOrder (held : Held) (now : ℕ) : Prop :=
  now ≤ held.t1 ∧ held.t1 ≤ held.t2 ∧ ∀ expires, held.expires = some expires → held.t2 ≤ expires

/-- One span ends no later than another that starts with it; the second case is
the end of the clock. -/
def NoLater (now a b : ℕ) : Prop := a ≤ b ∨ longest ≤ now + b

/-- What options 58, 59 and 51 of one ACK have to keep to. An option that is
missing and an option that says "infinite" are both `none`. -/
def Agree (now : ℕ) (renewal rebinding lasts : Option ℕ) : Prop :=
  match renewal, rebinding, lasts with
  | some t1, some t2, some lasts => NoLater now t1 t2 ∧ NoLater now t2 lasts
  | some t1, some t2, none => NoLater now t1 t2
  | some t1, none, some lasts => NoLater now t1 (fromSecs (asSecs lasts * 7 / 8))
  | none, some t2, some lasts => NoLater now (fromSecs (asSecs lasts / 2)) t2 ∧ NoLater now t2 lasts
  | none, some t2, none => longest ≤ now + t2
  | _, none, none | none, none, some _ => True

theorem noLater_of_le {now a b : ℕ} (h : a ≤ b) : NoLater now a b := Or.inl h

theorem noLater_longest (now a : ℕ) : NoLater now a longest := Or.inr (Nat.le_add_left _ _)

theorem longest_noLater {now b : ℕ} : NoLater now longest b ↔ longest ≤ now + b := by
  unfold NoLater
  omega

theorem saturatingAdd_le_saturatingAdd_iff {now a b : ℕ} :
    saturatingAdd now a ≤ saturatingAdd now b ↔ NoLater now a b := by
  unfold saturatingAdd NoLater
  omega

/-- Without option 59 rebinding starts at seven eighths. -/
theorem fraction_seven_eighths (seconds : UInt32) :
    fraction (some (fromSecs seconds.toNat)) t2Numerator t2Denominator =
      some (fromSecs (seconds.toNat * 7 / 8)) :=
  fraction_seconds seconds (by decide) (by decide)

namespace Lease

theorem granted_inOrder_iff {message : Message} {address : Ipv4Addr} {now : ℕ} (hnow : now ≤ longest) :
    (granted message address now).InOrder now ↔
      Agree now (optionSeconds message .renewal) (optionSeconds message .rebinding)
        (optionSeconds message .addressLeaseTime) := by
  have hconfig : (configuration message address).lease = optionSeconds message .addressLeaseTime := rfl
  simp only [Held.InOrder, granted, hconfig, le_saturatingAdd hnow, true_and, saturatingAdd_le_saturatingAdd_iff]
  cases hlasts : optionSeconds message .addressLeaseTime with
  | none =>
    have hfraction (numerator denominator : ℕ) : fraction none numerator denominator = none := rfl
    cases optionSeconds message .renewal <;> cases optionSeconds message .rebinding <;>
      simp [Agree, hfraction, noLater_longest, longest_noLater]
  | some lasts =>
    obtain ⟨seconds, rfl⟩ := optionSeconds_eq_some hlasts
    have hhalf : NoLater now (fromSecs (seconds.toNat / 2)) (fromSecs (seconds.toNat * 7 / 8)) :=
      noLater_of_le (fromSecs_mono (by omega))
    have hmost : NoLater now (fromSecs (seconds.toNat * 7 / 8)) (fromSecs seconds.toNat) :=
      noLater_of_le (fromSecs_mono (by omega))
    simp only [fraction_half, fraction_seven_eighths, Option.map_some, Option.some_inj, forall_eq',
      saturatingAdd_le_saturatingAdd_iff]
    cases optionSeconds message .renewal <;> cases optionSeconds message .rebinding <;>
      simp [Agree, asSecs_fromSecs, hhalf, hmost]

theorem next_of_binding {lease : Lease} {message : Message} (h : lease.binding message = true) (now : ℕ) :
    lease.next (.message message now) = lease.acceptAck message now := by
  simp only [binding, decide_eq_true_eq] at h
  obtain ⟨hxid, hchaddr, hkind, hstate, -⟩ := h
  rcases hstate with hstate | hstate | hstate <;> simp [next, onMessage, hxid, hchaddr, hkind, hstate]

/-- The timers of an accepted ACK are in order exactly when its options
agree. -/
theorem inOrder_next_iff (lease : Lease) (message : Message) (now : ℕ) (hnow : now ≤ longest)
    (hbinding : lease.binding message = true) :
    ∃ held, (lease.next (.message message now)).2.held = some held ∧
      (held.InOrder now ↔ Agree now (optionSeconds message .renewal) (optionSeconds message .rebinding)
        (optionSeconds message .addressLeaseTime)) := by
  refine ⟨granted message (lease.ackAddress message) now, ?_, granted_inOrder_iff hnow⟩
  rw [next_of_binding hbinding]
  exact (acceptAck_of_address (address_of_binding hbinding) now).2.2.1

end Lease

namespace Clocked

/-- A client that has asked for the address it was offered. -/
def asked : Clocked :=
  let xid : UInt32 := xorshift 1 ||| 1
  [.deadline, .message (reply xid .offer []) 0].foldl next (new #v[2, 0, 0, 0, 0, 1] 1 0)

/-- An ACK for an hour whose server wants to be asked again at these times. -/
def hour (renewal rebinding : UInt32) : Message :=
  reply asked.client.lease.xid .ack [.addressLeaseTime 3600, .renewal renewal, .rebinding rebinding]

theorem inOrder_next_iff_hour :
    ∃ held, (asked.client.lease.next (.message (hour 1000 2000) 0)).2.held = some held ∧
      (held.InOrder 0 ↔ Agree 0 (optionSeconds (hour 1000 2000) .renewal) (optionSeconds (hour 1000 2000) .rebinding)
        (optionSeconds (hour 1000 2000) .addressLeaseTime)) :=
  asked.client.lease.inOrder_next_iff (hour 1000 2000) 0 (Nat.zero_le _) (by decide +kernel)

/-- A server that wants rebinding to start before renewing is obeyed. -/
theorem rebinding_before_renewing :
    ¬ ∀ (mac : Vector UInt8 6) (seed : UInt32) (start : ℕ) (stimuli : List Stimulus) (message : Message) (now : ℕ),
      let lease := (stimuli.foldl next (new mac seed start)).client.lease
      now ≤ longest → lease.binding message = true →
        ∃ held, (lease.next (.message message now)).2.held = some held ∧ held.InOrder now := by
  intro h
  obtain ⟨held, hheld, -, horder, -⟩ := h #v[2, 0, 0, 0, 0, 1] 1 0
    [.deadline, .message (reply (xorshift 1 ||| 1) .offer []) 0] (hour 1000 10) 0 (Nat.zero_le _) (by decide +kernel)
  have hgranted : (asked.client.lease.next (.message (hour 1000 10) 0)).2.held.map (fun held => (held.t1, held.t2)) =
      some (fromSecs 1000, fromSecs 10) := by decide +kernel
  rw [show (asked.client.lease.next (.message (hour 1000 10) 0)).2.held = some held from hheld, Option.map_some,
    Option.some_inj, Prod.mk.injEq] at hgranted
  rw [hgranted.1, hgranted.2] at horder
  exact absurd horder (by decide)

end Clocked

end Kmsrs.Os
