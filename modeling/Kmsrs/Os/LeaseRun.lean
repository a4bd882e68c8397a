import Kmsrs.Os.Lease

/-! Runs of the DHCP client. Whatever arrives and whenever, the client holds a
lease in exactly the three states that are about one, and the configuration its
actions have put on the interface is the configuration it holds. -/

namespace Kmsrs.Os

/-- What the caller tells the client. -/
inductive Event where
  | timeout (now : ℕ)
  | message (message : Message) (now : ℕ)
deriving DecidableEq

def Event.now : Event → ℕ
  | .timeout now => now
  | .message _ now => now

/-- The states in which a lease is in hand. -/
def State.holds : State → Bool
  | .bound | .renewing | .rebinding => true
  | .init | .selecting | .requesting => false

/-- What the interface carries after an action, when it carried `carried`
before. -/
def Action.settle (carried : Option Config) : Action → Option Config
  | .configure config => some config
  | .deconfigure => none
  | .broadcast _ | .unicast _ _ | .note _ => carried

/-- The last configuration that was put on the interface and not taken off. -/
def settled (actions : List Action) : Option Config := actions.foldl Action.settle none

theorem settled_append (before after : List Action) :
    settled (before ++ after) = after.foldl Action.settle (settled before) := by
  rw [settled, List.foldl_append, ← settled]

namespace Lease

def next (lease : Lease) : Event → List Action × Lease
  | .timeout now => lease.onTime now
  | .message message now => lease.onMessage message now

/-- Whether a message is an ACK that the client binds to. -/
def binding (lease : Lease) (message : Message) : Bool :=
  message.xid = lease.xid ∧ message.chaddr = lease.mac.toList ∧ message.opts.msgType = some .ack ∧
    (lease.state = .requesting ∨ lease.state = .renewing ∨ lease.state = .rebinding) ∧
    ¬ (lease.ackAddress message).isUnspecified

/-- The ways a client moves, each with the guard under which it is taken. -/
inductive Moves (lease : Lease) : Event → List Action × Lease → Prop
  | ignores (message : Message) (now : ℕ) (hbinding : lease.binding message = false) :
      Moves lease (.message message now) ([], lease)
  | restarts (now : ℕ) (notes : List Text)
      (hstate : lease.state = .init ∨
        (lease.state = .selecting ∨ lease.state = .requesting) ∧ maxAttempts ≤ lease.attempts) :
      Moves lease (.timeout now) (notes.map .note ++ (lease.discover now).1, (lease.discover now).2)
  | resends (now : ℕ) (hstate : lease.state = .selecting ∨ lease.state = .requesting)
      (hattempts : lease.attempts < maxAttempts) : Moves lease (.timeout now) (lease.retransmit now)
  | renews (now : ℕ) (hstate : lease.state = .bound) : Moves lease (.timeout now) (lease.beginRenewing now)
  | rebinds (now : ℕ) (hstate : lease.state = .renewing) (ht2 : lease.pastT2 now = true) :
      Moves lease (.timeout now) (lease.beginRebinding now)
  | asksAgain (now : ℕ)
      (hstate : lease.state = .renewing ∧ lease.pastT2 now = false ∨
        lease.state = .rebinding ∧ lease.expired now = false) : Moves lease (.timeout now) (lease.retransmit now)
  | givesUp (now : ℕ) (hstate : lease.state = .rebinding) (hexpired : lease.expired now = true) :
      Moves lease (.timeout now) (lease.giveUp now)
  | requests (message : Message) (now : ℕ) (hstate : lease.state = .selecting)
      (hoffered : message.yiaddr.isUnspecified = false) :
      Moves lease (.message message now) (lease.acceptOffer message now)
  | binds (message : Message) (now : ℕ) (hbinding : lease.binding message = true) :
      Moves lease (.message message now) (lease.acceptAck message now)
  | refused (message : Message) (now : ℕ)
      (hstate : lease.state = .requesting ∨ lease.state = .renewing ∨ lease.state = .rebinding)
      (hbinding : lease.binding message = false) (hkind : message.opts.msgType = some .nak) :
      Moves lease (.message message now) (lease.acceptNak message now)

theorem moves_onTime (lease : Lease) (now : ℕ) : lease.Moves (.timeout now) (lease.onTime now) := by
  cases hstate : lease.state with
  | init =>
    have h := Moves.restarts now [] (Or.inl hstate)
    rw [onTime, hstate]
    exact h
  | selecting =>
    simp only [onTime, hstate]
    by_cases hattempts : maxAttempts ≤ lease.attempts
    · have h := Moves.restarts now ["no DHCP server answered; retrying".toList] (Or.inr ⟨Or.inl hstate, hattempts⟩)
      rw [if_pos hattempts]
      exact h
    · rw [if_neg hattempts]
      exact .resends now (Or.inl hstate) (by omega)
  | requesting =>
    simp only [onTime, hstate]
    by_cases hattempts : maxAttempts ≤ lease.attempts
    · have h := Moves.restarts now ["the server offered an address and then stopped answering".toList]
        (Or.inr ⟨Or.inr hstate, hattempts⟩)
      rw [if_pos hattempts]
      exact h
    · rw [if_neg hattempts]
      exact .resends now (Or.inr hstate) (by omega)
  | bound =>
    rw [onTime, hstate]
    exact .renews now hstate
  | renewing =>
    rw [onTime, hstate]
    cases ht2 : lease.pastT2 now with
    | true => exact .rebinds now hstate ht2
    | false => exact .asksAgain now (Or.inl ⟨hstate, ht2⟩)
  | rebinding =>
    rw [onTime, hstate]
    cases hexpired : lease.expired now with
    | true => exact .givesUp now hstate hexpired
    | false => exact .asksAgain now (Or.inr ⟨hstate, hexpired⟩)

theorem moves_acceptOffer {lease : Lease} (message : Message) (now : ℕ) (hstate : lease.state = .selecting) :
    lease.Moves (.message message now) (lease.acceptOffer message now) := by
  cases hoffered : message.yiaddr.isUnspecified with
  | true =>
    rw [acceptOffer, hoffered]
    exact .ignores message now (by simp [binding, hstate])
  | false => exact .requests message now hstate hoffered

theorem moves_acceptAck {lease : Lease} {message : Message} (now : ℕ) (hxid : message.xid = lease.xid)
    (hchaddr : message.chaddr = lease.mac.toList) (hkind : message.opts.msgType = some .ack)
    (hstate : lease.state = .requesting ∨ lease.state = .renewing ∨ lease.state = .rebinding) :
    lease.Moves (.message message now) (lease.acceptAck message now) := by
  cases haddress : (lease.ackAddress message).isUnspecified with
  | true =>
    rw [acceptAck, haddress]
    exact .ignores message now (by simp [binding, haddress])
  | false => exact .binds message now (by simp [binding, hxid, hchaddr, hkind, hstate, haddress])

theorem moves_onMessage (lease : Lease) (message : Message) (now : ℕ) :
    lease.Moves (.message message now) (lease.onMessage message now) := by
  unfold onMessage
  split_ifs with hxid hchaddr
  · exact .ignores message now (by simp [binding, hxid])
  · exact .ignores message now (by simp [binding, hchaddr])
  · rw [not_not] at hxid hchaddr
    split
    case h_1 hstate _ => exact moves_acceptOffer message now hstate
    case h_2 hstate hkind => exact moves_acceptAck now hxid hchaddr hkind (by simp [hstate])
    case h_3 hstate hkind => exact moves_acceptAck now hxid hchaddr hkind (by simp [hstate])
    case h_4 hstate hkind => exact moves_acceptAck now hxid hchaddr hkind (by simp [hstate])
    case h_5 hstate hkind => exact .refused message now (by simp [hstate]) (by simp [binding, hkind]) hkind
    case h_6 hstate hkind => exact .refused message now (by simp [hstate]) (by simp [binding, hkind]) hkind
    case h_7 hstate hkind => exact .refused message now (by simp [hstate]) (by simp [binding, hkind]) hkind
    case h_8 _ hrequesting hrenewing hrebinding _ _ _ =>
      refine .ignores message now ?_
      rw [binding, decide_eq_false_iff_not]
      rintro ⟨-, -, hkind, hstate | hstate | hstate, -⟩
      · exact hrequesting hstate hkind
      · exact hrenewing hstate hkind
      · exact hrebinding hstate hkind

theorem moves (lease : Lease) (event : Event) : lease.Moves event (lease.next event) := by
  cases event with
  | timeout now => exact lease.moves_onTime now
  | message message now => exact lease.moves_onMessage message now

/-- A message of another transaction, or for another machine, is not looked at. -/
theorem next_of_not_ours {lease : Lease} {message : Message}
    (h : message.xid ≠ lease.xid ∨ message.chaddr ≠ lease.mac.toList) (now : ℕ) :
    lease.next (.message message now) = ([], lease) := by
  rw [next, onMessage]
  rcases h with hxid | hchaddr
  · rw [if_pos hxid]
  · rw [if_pos hchaddr, ite_self]

/-! ### What each transition leaves -/

@[simp] theorem discover_mac (lease : Lease) (now : ℕ) : (lease.discover now).2.mac = lease.mac := rfl
@[simp] theorem discover_state (lease : Lease) (now : ℕ) : (lease.discover now).2.state = .selecting := rfl
@[simp] theorem discover_held (lease : Lease) (now : ℕ) : (lease.discover now).2.held = lease.held := rfl

/-- A retransmission changes neither what is held nor what is asked for, and
only sends. -/
theorem retransmit_keeps (lease : Lease) (now : ℕ) :
    (lease.retransmit now).2.mac = lease.mac ∧ (lease.retransmit now).2.state = lease.state ∧
      (lease.retransmit now).2.held = lease.held ∧ (lease.retransmit now).2.wanted = lease.wanted ∧
      (lease.retransmit now).2.offeredBy = lease.offeredBy ∧
      ∀ carried, (lease.retransmit now).1.foldl Action.settle carried = carried := by
  obtain ⟨mac, state, xid, noise, began, deadline, backoff, attempts, held, wanted, offeredBy⟩ := lease
  cases state with
  | renewing => cases held <;> exact ⟨rfl, rfl, rfl, rfl, rfl, fun _ => rfl⟩
  | init | selecting | requesting | bound | rebinding => exact ⟨rfl, rfl, rfl, rfl, rfl, fun _ => rfl⟩

theorem foldl_settle_notes (notes : List Text) (carried : Option Config) :
    (notes.map Action.note).foldl Action.settle carried = carried := by
  induction notes with
  | nil => rfl
  | cons note notes ih => exact ih

/-- An accepted offer is what the request then asks for. -/
theorem acceptOffer_of_offered (lease : Lease) {message : Message} (h : message.yiaddr.isUnspecified = false)
    (now : ℕ) :
    (lease.acceptOffer message now).2.mac = lease.mac ∧ (lease.acceptOffer message now).2.state = .requesting ∧
      (lease.acceptOffer message now).2.held = lease.held ∧
      (lease.acceptOffer message now).2.wanted = some message.yiaddr ∧
      (lease.acceptOffer message now).2.offeredBy = some ((serverIdentifier message).getD message.siaddr) ∧
      ∀ carried, (lease.acceptOffer message now).1.foldl Action.settle carried = carried := by
  rw [acceptOffer, h]
  exact ⟨rfl, rfl, rfl, rfl, rfl, fun _ => rfl⟩

theorem address_of_binding {lease : Lease} {message : Message} (h : lease.binding message = true) :
    (lease.ackAddress message).isUnspecified = false := by
  simp only [binding, decide_eq_true_eq] at h
  simpa using h.2.2.2.2

/-- An accepted ACK is answered with notes, and with its configuration unless
that is the one already held. -/
theorem acceptAck_actions {lease : Lease} {message : Message} (h : (lease.ackAddress message).isUnspecified = false)
    (now : ℕ) : ∃ notes : List Text, (lease.acceptAck message now).1 = notes.map .note ++
      if lease.config = some (configuration message (lease.ackAddress message)) then []
      else [.configure (configuration message (lease.ackAddress message))] := by
  have hchanged : (lease.held.map (·.config.address) ≠ some (lease.ackAddress message) ∨
      lease.config ≠ some (configuration message (lease.ackAddress message))) ↔
      lease.config ≠ some (configuration message (lease.ackAddress message)) := by
    refine or_iff_right_of_imp fun haddress hsame => haddress ?_
    have haddresses := congrArg (Option.map Config.address) hsame
    rwa [config, Option.map_map] at haddresses
  refine ⟨movedNotes (lease.held.map (·.config.address)) (lease.ackAddress message), ?_⟩
  simp only [acceptAck, h, Bool.false_eq_true, if_false, hchanged, ite_not]

/-- An accepted ACK puts its configuration on the interface, or leaves it there
when it is the one already held. -/
theorem acceptAck_of_address {lease : Lease} {message : Message}
    (h : (lease.ackAddress message).isUnspecified = false) (now : ℕ) :
    (lease.acceptAck message now).2.mac = lease.mac ∧ (lease.acceptAck message now).2.state = .bound ∧
      (lease.acceptAck message now).2.held = some (granted message (lease.ackAddress message) now) ∧
      (lease.acceptAck message now).1.foldl Action.settle lease.config =
        some (configuration message (lease.ackAddress message)) := by
  obtain ⟨notes, hactions⟩ := acceptAck_actions h now
  refine ⟨by rw [acceptAck, h]; rfl, by rw [acceptAck, h]; rfl, by rw [acceptAck, h]; rfl, ?_⟩
  rw [hactions, List.foldl_append, foldl_settle_notes]
  split_ifs with hconfig
  · exact hconfig
  · rfl

theorem acceptNak_leaves (lease : Lease) (message : Message) (now : ℕ) :
    (lease.acceptNak message now).2.mac = lease.mac ∧ (lease.acceptNak message now).2.state = .init ∧
      (lease.acceptNak message now).2.held = none ∧
      (lease.acceptNak message now).1.foldl Action.settle lease.config = none := by
  refine ⟨rfl, rfl, rfl, ?_⟩
  cases hheld : lease.held with
  | none => simp [acceptNak, config, hheld, Action.settle]
  | some held => simp [acceptNak, hheld, Action.settle]

theorem beginRenewing_of_held {lease : Lease} {held : Held} (h : lease.held = some held) (now : ℕ) :
    (lease.beginRenewing now).2.mac = lease.mac ∧ (lease.beginRenewing now).2.state = .renewing ∧
      (lease.beginRenewing now).2.held = some held ∧
      ∀ carried, (lease.beginRenewing now).1.foldl Action.settle carried = carried := by
  rw [beginRenewing, h]
  exact ⟨rfl, rfl, rfl, fun _ => rfl⟩

theorem beginRebinding_leaves (lease : Lease) (now : ℕ) :
    (lease.beginRebinding now).2.mac = lease.mac ∧ (lease.beginRebinding now).2.state = .rebinding ∧
      (lease.beginRebinding now).2.held = lease.held ∧
      ∀ carried, (lease.beginRebinding now).1.foldl Action.settle carried = carried :=
  ⟨rfl, rfl, rfl, fun _ => rfl⟩

theorem giveUp_leaves (lease : Lease) (now : ℕ) :
    (lease.giveUp now).2.mac = lease.mac ∧ (lease.giveUp now).2.state = .selecting ∧
      (lease.giveUp now).2.held = none ∧ ∀ carried, (lease.giveUp now).1.foldl Action.settle carried = none :=
  ⟨rfl, rfl, rfl, fun _ => rfl⟩

/-! ### The invariant -/

/-- A lease is held exactly in the states that are about one, and a request
asks one server for one address. -/
structure Sound (lease : Lease) : Prop where
  held_iff : lease.held.isSome = lease.state.holds
  asks : lease.state = .requesting →
    ∃ wanted server, lease.wanted = some wanted ∧ lease.offeredBy = some server ∧ wanted.isUnspecified = false

theorem sound_new (mac : Vector UInt8 6) (seed : UInt32) (now : ℕ) : (new mac seed now).Sound :=
  ⟨rfl, by simp [new]⟩

theorem Sound.exists_held {lease : Lease} (h : lease.Sound) (hstate : lease.state.holds = true) :
    ∃ held, lease.held = some held := Option.isSome_iff_exists.mp (h.held_iff.trans hstate)

theorem Sound.held_eq_none {lease : Lease} (h : lease.Sound) (hstate : lease.state.holds = false) :
    lease.held = none := Option.isSome_eq_false_iff.mp (h.held_iff.trans hstate) |> Option.isNone_iff_eq_none.mp

/-- A state that asks for nothing is sound as soon as it holds what it should. -/
theorem Sound.of_held {lease : Lease} (hheld : lease.held.isSome = lease.state.holds)
    (hstate : lease.state ≠ .requesting) : lease.Sound := ⟨hheld, fun h => absurd h hstate⟩

/-- One step: it stays sound, stays on its interface, and carries the interface
from what was held to what is held. -/
theorem step_spec {lease : Lease} (h : lease.Sound) {event : Event} {out : List Action × Lease}
    (hmoves : lease.Moves event out) :
    out.2.Sound ∧ out.2.mac = lease.mac ∧ out.1.foldl Action.settle lease.config = out.2.config := by
  cases hmoves with
  | ignores => exact ⟨h, rfl, rfl⟩
  | restarts now notes hstate =>
    have hnone : lease.held = none := h.held_eq_none (by rcases hstate with hs | ⟨hs | hs, -⟩ <;> rw [hs] <;> rfl)
    refine ⟨.of_held (by simp [hnone, State.holds]) (by simp), rfl, ?_⟩
    rw [List.foldl_append, foldl_settle_notes]
    rfl
  | resends now hstate hattempts =>
    obtain ⟨hmac, hsame, hheld, hwanted, hoffered, hsettle⟩ := lease.retransmit_keeps now
    refine ⟨⟨by rw [hheld, hsame, h.held_iff], fun hasks => ?_⟩, hmac, ?_⟩
    · rw [hwanted, hoffered]
      exact h.asks (hsame ▸ hasks)
    · rw [hsettle, config, config, hheld]
  | renews now hstate =>
    obtain ⟨held, hheld⟩ := h.exists_held (by rw [hstate]; rfl)
    obtain ⟨hmac, hnew, hkept, hsettle⟩ := beginRenewing_of_held hheld now
    refine ⟨.of_held (by rw [hkept, hnew]; rfl) (by simp [hnew]), hmac, ?_⟩
    rw [hsettle, config, config, hkept, hheld]
  | rebinds now hstate ht2 =>
    obtain ⟨hmac, hnew, hkept, hsettle⟩ := lease.beginRebinding_leaves now
    refine ⟨.of_held ?_ (by simp [hnew]), hmac, ?_⟩
    · rw [hkept, hnew, h.held_iff, hstate]
      rfl
    · rw [hsettle, config, config, hkept]
  | asksAgain now hstate =>
    obtain ⟨hmac, hsame, hheld, -, -, hsettle⟩ := lease.retransmit_keeps now
    refine ⟨.of_held (by rw [hheld, hsame, h.held_iff]) ?_, hmac, ?_⟩
    · rcases hstate with ⟨hs, -⟩ | ⟨hs, -⟩ <;> rw [hsame, hs] <;> simp
    · rw [hsettle, config, config, hheld]
  | givesUp now hstate hexpired =>
    obtain ⟨hmac, hnew, hnone, hsettle⟩ := lease.giveUp_leaves now
    refine ⟨.of_held (by rw [hnone, hnew]; rfl) (by simp [hnew]), hmac, ?_⟩
    rw [hsettle, config, hnone]
    rfl
  | requests message now hstate hoffered =>
    obtain ⟨hmac, hnew, hheld, hwanted, hserver, hsettle⟩ := lease.acceptOffer_of_offered hoffered now
    refine ⟨⟨?_, fun _ => ⟨_, _, hwanted, hserver, hoffered⟩⟩, hmac, ?_⟩
    · rw [hheld, hnew, h.held_iff, hstate]
      rfl
    · rw [hsettle, config, config, hheld]
  | binds message now hbinding =>
    obtain ⟨hmac, hnew, hheld, hsettle⟩ := acceptAck_of_address (address_of_binding hbinding) now
    refine ⟨.of_held (by rw [hheld, hnew]; rfl) (by simp [hnew]), hmac, ?_⟩
    rw [hsettle, config, hheld]
    rfl
  | refused message now =>
    obtain ⟨hmac, hnew, hnone, hsettle⟩ := lease.acceptNak_leaves message now
    refine ⟨.of_held (by rw [hnone, hnew]; rfl) (by simp [hnew]), hmac, ?_⟩
    rw [hsettle, config, hnone]
    rfl

end Lease

/-! ### Runs -/

/-- A client together with everything it has asked for so far. -/
structure Client where
  lease : Lease
  emitted : List Action
deriving DecidableEq

namespace Client

def new (mac : Vector UInt8 6) (seed : UInt32) (now : ℕ) : Client := ⟨Lease.new mac seed now, []⟩

def next (client : Client) (event : Event) : Client :=
  let (actions, lease) := client.lease.next event
  ⟨lease, client.emitted ++ actions⟩

def Sound (client : Client) : Prop :=
  client.lease.Sound ∧ settled client.emitted = client.lease.config

theorem sound_next {client : Client} (h : client.Sound) (event : Event) :
    (client.next event).Sound ∧ (client.next event).lease.mac = client.lease.mac := by
  obtain ⟨hsound, hmac, hsettle⟩ := Lease.step_spec h.1 (client.lease.moves event)
  refine ⟨⟨hsound, ?_⟩, hmac⟩
  rw [next, settled_append, h.2]
  exact hsettle

theorem sound_run (mac : Vector UInt8 6) (seed : UInt32) (start : ℕ) (events : List Event) :
    (events.foldl next (new mac seed start)).Sound ∧ (events.foldl next (new mac seed start)).lease.mac = mac := by
  induction events using List.reverseRecOn with
  | nil => exact ⟨⟨Lease.sound_new mac seed start, rfl⟩, rfl⟩
  | append_singleton events event ih =>
    rw [List.foldl_concat]
    obtain ⟨hsound, hmac⟩ := sound_next ih.1 event
    exact ⟨hsound, hmac.trans ih.2⟩

/-- The client mirrors its lease, after any messages at any times. -/
theorem mirrors_lease (mac : Vector UInt8 6) (seed : UInt32) (start : ℕ) (events : List Event) :
    let client := events.foldl next (new mac seed start)
    (client.lease.held.isSome ↔
        client.lease.state = .bound ∨ client.lease.state = .renewing ∨ client.lease.state = .rebinding) ∧
      (client.lease.state = .requesting → ∃ wanted server,
        client.lease.wanted = some wanted ∧ client.lease.offeredBy = some server ∧ wanted ≠ .unspecified) ∧
      settled client.emitted = client.lease.config ∧
      ∀ message now, message.xid ≠ client.lease.xid ∨ message.chaddr ≠ mac.toList →
        client.lease.next (.message message now) = ([], client.lease) := by
  intro client
  obtain ⟨⟨hsound, hsettled⟩, hmac⟩ := sound_run mac seed start events
  refine ⟨?_, fun hasks => ?_, hsettled, fun message now hother => ?_⟩
  · rw [hsound.held_iff]
    cases client.lease.state <;> simp [State.holds]
  · obtain ⟨wanted, server, hwanted, hserver, hset⟩ := hsound.asks hasks
    exact ⟨wanted, server, hwanted, hserver, by simpa [Ipv4Addr.isUnspecified] using hset⟩
  · rw [← hmac] at hother
    exact Lease.next_of_not_ours hother now

end Client

end Kmsrs.Os
