import Kmsrs.Lib.Run
import Kmsrs.Os.LeaseRun
import Kmsrs.Os.Noise

/-! What the client sends. Each message has the addresses, the options and the
destination that the protocol's table gives it for the state it is sent in, and
carries the identifier of the current transaction; the identifier is drawn anew
when a transaction starts and never otherwise. -/

namespace Kmsrs.Os

open Duration

namespace Lease

/-- Whether an event starts a discover, renew or rebind transaction. -/
def starts (lease : Lease) : Event → Bool
  | .timeout now =>
    match lease.state with
    | .init | .bound => true
    | .selecting | .requesting => maxAttempts ≤ lease.attempts
    | .renewing => lease.pastT2 now
    | .rebinding => lease.expired now
  | .message _ _ => false

end Lease

/-- A client together with the time its transaction started and the last offer
it took. -/
structure Conversation where
  lease : Lease
  since : ℕ
  offer : Option Message
deriving DecidableEq

namespace Conversation

def new (mac : Vector UInt8 6) (seed : UInt32) (start : ℕ) : Conversation := ⟨.new mac seed start, start, none⟩

def next (c : Conversation) (event : Event) : Conversation :=
  let lease := (c.lease.next event).2
  { lease
    since := if c.lease.starts event then event.now else c.since
    offer := match event with
      | .message message _ =>
        if c.lease.state = .selecting ∧ lease.state = .requesting then some message else c.offer
      | .timeout _ => c.offer }

end Conversation

/-! ### The table -/

/-- What every message carries. -/
structure Message.Common (c : Conversation) (now : ℕ) (message : Message) : Prop where
  xid : message.xid = c.lease.xid
  chaddr : message.chaddr = c.lease.mac.toList
  identifier : message.opts.get .clientIdentifier = some (.clientIdentifier (1 :: c.lease.mac.toList))
  secs : message.secs.toNat = min (asSecs (now - c.since)) 65535

/-- A message that names no address to give and no server. -/
def Message.Bare (message : Message) : Prop :=
  message.opts.get .requestedIpAddress = none ∧ message.opts.get .serverIdentifier = none

/-- The table: what may be sent in the state reached, and how. -/
def Action.Conforms (c : Conversation) (now : ℕ) : Action → Prop
  | .broadcast message =>
    message.Common c now ∧
      match c.lease.state, message.opts.msgType with
      | .selecting, some .discover => message.ciaddr = .unspecified ∧ message.broadcast = true ∧ message.Bare
      | .requesting, some .request =>
        message.ciaddr = .unspecified ∧ message.broadcast = true ∧ ∃ offer, c.offer = some offer ∧
          message.opts.get .requestedIpAddress = some (.requestedIpAddress offer.yiaddr) ∧
          message.opts.get .serverIdentifier =
            some (.serverIdentifier ((serverIdentifier offer).getD offer.siaddr))
      | .rebinding, some .request =>
        ∃ held, c.lease.held = some held ∧ message.ciaddr = held.config.address ∧ message.Bare
      | _, _ => False
  | .unicast message server =>
    message.Common c now ∧ message.opts.msgType = some .request ∧ c.lease.state = .renewing ∧
      ∃ held, c.lease.held = some held ∧ server = held.config.server ∧
        message.ciaddr = held.config.address ∧ message.Bare
  | .configure _ | .deconfigure | .note _ => True

/-- A step of a conversation as the table has it: it sends nothing else, and the
identifier changes exactly when a transaction starts. -/
def Conversation.ObeysTable (c : Conversation) (event : Event) : Prop :=
  (∀ action ∈ (c.lease.next event).1, action.Conforms (c.next event) event.now) ∧
    ((c.next event).lease.xid ≠ c.lease.xid ↔ c.lease.starts event = true)

/-! ### Messages -/

namespace Message.Common

variable {c : Conversation} {now : ℕ} {message : Message}

theorem flagged (h : message.Common c now) : ({ message with broadcast := true } : Message).Common c now :=
  ⟨h.xid, h.chaddr, h.identifier, h.secs⟩

theorem insert (h : message.Common c now) {option : DhcpOption} (hcode : .clientIdentifier ≠ option.code) :
    ({ message with opts := message.opts.insert option } : Message).Common c now := by
  refine ⟨h.xid, h.chaddr, ?_, h.secs⟩
  rw [← h.identifier]
  exact DhcpOptions.get_insert_of_ne _ hcode

/-- Every message is a blank one, and a blank one has the common fields. -/
theorem blank (hbegan : c.lease.began = c.since) (kind : MessageType) (ciaddr : Ipv4Addr) (now : ℕ) :
    (c.lease.blank kind ciaddr now).Common c now := by
  refine ⟨rfl, rfl, ?_, ?_⟩
  · simp [Lease.blank, DhcpOptions.get_insert, DhcpOption.code]
  · simp only [Lease.blank, hbegan]
    split_ifs with h
    · rw [UInt16.toNat_ofNat_of_lt' h]
      omega
    · rw [show (0xFFFF : UInt16).toNat = 65535 from rfl]
      omega

end Message.Common

namespace Lease

@[simp] theorem blank_msgType (lease : Lease) (kind : MessageType) (ciaddr : Ipv4Addr) (now : ℕ) :
    (lease.blank kind ciaddr now).opts.msgType = some kind := by
  simp [blank, DhcpOptions.msgType, DhcpOptions.get_insert, DhcpOption.code]

theorem blank_bare (lease : Lease) (kind : MessageType) (ciaddr : Ipv4Addr) (now : ℕ) :
    (lease.blank kind ciaddr now).Bare := by
  simp [blank, Message.Bare, Message.newWithId, DhcpOptions.get_insert, DhcpOption.code]

/-- A request that answers an offer is the blank message with two options. -/
theorem selectingRequest_eq {lease : Lease} {wanted server : Ipv4Addr} (hwanted : lease.wanted = some wanted)
    (hserver : lease.offeredBy = some server) (now : ℕ) :
    lease.selectingRequest now =
      { lease.blank .request .unspecified now with
        broadcast := true
        opts := ((lease.blank .request .unspecified now).opts.insert (.requestedIpAddress wanted)).insert
          (.serverIdentifier server) } := by
  simp only [selectingRequest, hwanted, hserver]

theorem boundRequest_eq {lease : Lease} {held : Held} (hheld : lease.held = some held) (now : ℕ) :
    lease.boundRequest now = lease.blank .request held.config.address now := by
  simp only [boundRequest, hheld]

end Lease

/-- In REQUESTING the client asks the server of an offer for what it offered. -/
def Conversation.Asking (c : Conversation) : Prop :=
  c.lease.state = .requesting → ∃ offer, c.offer = some offer ∧ c.lease.wanted = some offer.yiaddr ∧
    c.lease.offeredBy = some ((serverIdentifier offer).getD offer.siaddr)

namespace Conversation

variable {c : Conversation}

theorem conforms_discover (hbegan : c.lease.began = c.since) (hstate : c.lease.state = .selecting) (now : ℕ) :
    (Action.broadcast { c.lease.blank .discover .unspecified now with broadcast := true }).Conforms c now := by
  have hkind := c.lease.blank_msgType .discover .unspecified now
  refine ⟨(Message.Common.blank hbegan .discover .unspecified now).flagged, ?_⟩
  simp only [hstate, hkind]
  exact ⟨rfl, trivial, c.lease.blank_bare .discover .unspecified now⟩

theorem conforms_selectingRequest (hbegan : c.lease.began = c.since) (hasks : c.Asking)
    (hstate : c.lease.state = .requesting) (now : ℕ) :
    (Action.broadcast (c.lease.selectingRequest now)).Conforms c now := by
  obtain ⟨offer, hoffer, hwanted, hserver⟩ := hasks hstate
  have haddress : OptionCode.clientIdentifier ≠ (DhcpOption.requestedIpAddress offer.yiaddr).code := by
    simp [DhcpOption.code]
  have hidentifier : OptionCode.clientIdentifier ≠
      (DhcpOption.serverIdentifier ((serverIdentifier offer).getD offer.siaddr)).code := by
    simp [DhcpOption.code]
  have hcommon := (((Message.Common.blank hbegan .request .unspecified now).insert haddress).insert
    hidentifier).flagged
  have hkind : (c.lease.selectingRequest now).opts.msgType = some .request := by
    simp [Lease.selectingRequest_eq hwanted hserver, Lease.blank, DhcpOptions.msgType, DhcpOptions.get_insert,
      DhcpOption.code]
  refine ⟨by rwa [Lease.selectingRequest_eq hwanted hserver], ?_⟩
  simp only [hstate, hkind]
  rw [Lease.selectingRequest_eq hwanted hserver]
  exact ⟨rfl, rfl, offer, hoffer, by simp [DhcpOptions.get_insert, DhcpOption.code],
    by simp [DhcpOptions.get_insert, DhcpOption.code]⟩

theorem conforms_renewal (hbegan : c.lease.began = c.since) (hstate : c.lease.state = .renewing) {held : Held}
    (hheld : c.lease.held = some held) (now : ℕ) :
    (Action.unicast (c.lease.boundRequest now) held.config.server).Conforms c now := by
  rw [Lease.boundRequest_eq hheld]
  exact ⟨Message.Common.blank hbegan _ _ now, c.lease.blank_msgType _ _ now, hstate, held, hheld, rfl, rfl,
    c.lease.blank_bare _ _ now⟩

theorem conforms_rebinding (hbegan : c.lease.began = c.since) (hstate : c.lease.state = .rebinding) {held : Held}
    (hheld : c.lease.held = some held) (now : ℕ) :
    (Action.broadcast { c.lease.boundRequest now with broadcast := true }).Conforms c now := by
  have hkind := c.lease.blank_msgType .request held.config.address now
  rw [Lease.boundRequest_eq hheld]
  refine ⟨(Message.Common.blank hbegan .request held.config.address now).flagged, ?_⟩
  simp only [hstate, hkind]
  exact ⟨held, hheld, rfl, c.lease.blank_bare _ _ now⟩

end Conversation

/-! ### Draws -/

namespace Lease

/-- How many words have been drawn since the identifier, at most. -/
def draws (lease : Lease) : ℕ :=
  match lease.state with
  | .selecting => lease.attempts
  | .requesting => maxAttempts + lease.attempts
  | .init | .bound | .renewing | .rebinding => 2 * maxAttempts

/-- The identifier is a recent draw; the first one may be an even seed. -/
structure Drawn (lease : Lease) : Prop where
  noise : lease.xid &&& 1 = 1 → ∃ n ≤ lease.draws, lease.noise = draw^[n] lease.xid
  attempts : lease.state = .selecting ∨ lease.state = .requesting → lease.attempts ≤ maxAttempts

theorem drawn_new (mac : Vector UInt8 6) (seed : UInt32) (start : ℕ) : (new mac seed start).Drawn := by
  exact ⟨fun hodd => ⟨0, Nat.zero_le _, WordXor.or_one_of_odd hodd⟩, by simp [new]⟩

theorem Drawn.draws_le {lease : Lease} (h : lease.Drawn) : lease.draws ≤ 2 * maxAttempts := by
  unfold draws
  split
  case h_1 hstate => exact (h.attempts (Or.inl hstate)).trans (by decide)
  case h_2 hstate =>
    have := h.attempts (Or.inr hstate)
    omega
  all_goals exact le_rfl

/-- The next draw is another word than the identifier, but for one identifier. -/
theorem Drawn.draw_ne_iff {lease : Lease} (h : lease.Drawn) : draw lease.noise ≠ lease.xid ↔ lease.xid ≠ stuckNoise := by
  rw [not_iff_not]
  constructor
  · intro hsame
    have hodd : lease.xid &&& 1 = 1 := hsame ▸ draw_odd lease.noise
    obtain ⟨n, hn, hnoise⟩ := h.noise hodd
    rw [hnoise, ← Function.iterate_succ_apply' draw] at hsame
    have hbound : 2 * maxAttempts = 10 := rfl
    exact eq_stuckNoise_of_cycle n.succ_pos (by have := h.draws_le; omega) hodd hsame
  · intro hstuck
    obtain ⟨n, -, hnoise⟩ := h.noise (hstuck ▸ by decide)
    rw [hnoise, hstuck, ← Function.iterate_succ_apply' draw, Function.iterate_fixed draw_stuckNoise]

theorem retransmit_asking {lease : Lease} (hstate : lease.state = .selecting ∨ lease.state = .requesting) (now : ℕ) :
    (lease.retransmit now).2.began = lease.began ∧ (lease.retransmit now).2.xid = lease.xid ∧
      (lease.retransmit now).2.noise = draw lease.noise ∧
      (lease.retransmit now).2.attempts = min (lease.attempts + 1) (2 ^ 32 - 1) := by
  rcases hstate with hstate | hstate <;> simp only [retransmit, hstate] <;> exact ⟨rfl, rfl, rfl, rfl⟩

theorem retransmit_holding {lease : Lease} (hstate : lease.state = .renewing ∨ lease.state = .rebinding) (now : ℕ) :
    (lease.retransmit now).2.began = lease.began ∧ (lease.retransmit now).2.xid = lease.xid ∧
      (lease.retransmit now).2.noise = lease.noise := by
  obtain ⟨mac, state, xid, noise, began, deadline, backoff, attempts, held, wanted, offeredBy⟩ := lease
  rcases hstate with rfl | rfl
  · cases held <;> exact ⟨rfl, rfl, rfl⟩
  · exact ⟨rfl, rfl, rfl⟩

theorem acceptAck_draws_nothing {lease : Lease} {message : Message}
    (h : (lease.ackAddress message).isUnspecified = false) (now : ℕ) :
    (lease.acceptAck message now).2.began = lease.began ∧ (lease.acceptAck message now).2.xid = lease.xid ∧
      (lease.acceptAck message now).2.noise = lease.noise := by
  rw [acceptAck, h]
  exact ⟨rfl, rfl, rfl⟩

theorem acceptOffer_draws {lease : Lease} {message : Message} (h : message.yiaddr.isUnspecified = false) (now : ℕ) :
    (lease.acceptOffer message now).2.began = lease.began ∧ (lease.acceptOffer message now).2.xid = lease.xid ∧
      (lease.acceptOffer message now).2.noise = draw lease.noise ∧
      (lease.acceptOffer message now).2.attempts = 1 := by
  rw [acceptOffer, h]
  exact ⟨rfl, rfl, rfl, rfl⟩

theorem beginRenewing_draws {lease : Lease} {held : Held} (h : lease.held = some held) (now : ℕ) :
    (lease.beginRenewing now).2.began = now ∧ (lease.beginRenewing now).2.xid = draw lease.noise ∧
      (lease.beginRenewing now).2.noise = draw lease.noise := by
  rw [beginRenewing, h]
  exact ⟨rfl, rfl, rfl⟩

/-! Each message is written by the client that the step leaves. -/

theorem discover_sends (lease : Lease) (now : ℕ) : (lease.discover now).1 =
    [.broadcast { (lease.discover now).2.blank .discover .unspecified now with broadcast := true }] := rfl

theorem retransmit_sends {lease : Lease} (now : ℕ) :
    (lease.state = .selecting → (lease.retransmit now).1 =
        [.broadcast { (lease.retransmit now).2.blank .discover .unspecified now with broadcast := true }]) ∧
      (lease.state = .requesting → (lease.retransmit now).1 =
        [.broadcast ((lease.retransmit now).2.selectingRequest now)]) ∧
      (lease.state = .renewing → ∀ held, lease.held = some held → (lease.retransmit now).1 =
        [.unicast ((lease.retransmit now).2.boundRequest now) held.config.server]) ∧
      (lease.state = .rebinding → (lease.retransmit now).1 =
        [.broadcast { (lease.retransmit now).2.boundRequest now with broadcast := true }]) := by
  obtain ⟨mac, state, xid, noise, began, deadline, backoff, attempts, held, wanted, offeredBy⟩ := lease
  refine ⟨?_, ?_, ?_, ?_⟩
  · rintro rfl
    rfl
  · rintro rfl
    rfl
  · rintro rfl held rfl
    rfl
  · rintro rfl
    rfl

theorem acceptOffer_sends {lease : Lease} {message : Message} (h : message.yiaddr.isUnspecified = false) (now : ℕ) :
    ∃ text, (lease.acceptOffer message now).1 =
      [.note text, .broadcast ((lease.acceptOffer message now).2.selectingRequest now)] := by
  rw [acceptOffer, h]
  exact ⟨_, rfl⟩

theorem beginRenewing_sends {lease : Lease} {held : Held} (h : lease.held = some held) (now : ℕ) :
    ∃ text, (lease.beginRenewing now).1 =
      [.note text, .unicast ((lease.beginRenewing now).2.boundRequest now) held.config.server] := by
  rw [beginRenewing, h]
  exact ⟨_, rfl⟩

theorem beginRebinding_sends (lease : Lease) (now : ℕ) :
    ∃ text, (lease.beginRebinding now).1 =
      [.note text, .broadcast { (lease.beginRebinding now).2.boundRequest now with broadcast := true }] := ⟨_, rfl⟩

theorem giveUp_sends (lease : Lease) (now : ℕ) : ∃ text, (lease.giveUp now).1 = [.note text, .deconfigure,
    .broadcast { (lease.giveUp now).2.blank .discover .unspecified now with broadcast := true }] := ⟨_, rfl⟩

/-! ### The identifier -/

/-- In a state that is about a lease there is room for ten draws. -/
theorem Drawn.of_holding {lease : Lease} (hstate : lease.state ≠ .selecting ∧ lease.state ≠ .requesting)
    {n : ℕ} (hn : n ≤ 2 * maxAttempts) (hnoise : lease.xid &&& 1 = 1 → lease.noise = draw^[n] lease.xid) :
    lease.Drawn := by
  refine ⟨fun hodd => ⟨n, ?_, hnoise hodd⟩, fun h => (not_or.mpr hstate h).elim⟩
  obtain ⟨hselecting, hrequesting⟩ := hstate
  unfold draws
  split <;> first | exact hn | contradiction

/-- The identifier and the generator stay as they are in a state about a lease. -/
theorem Drawn.of_same {lease lease' : Lease} (h : lease.Drawn)
    (hstate : lease'.state ≠ .selecting ∧ lease'.state ≠ .requesting) (hxid : lease'.xid = lease.xid)
    (hnoise : lease'.noise = lease.noise) : lease'.Drawn := by
  by_cases hodd : lease.xid &&& 1 = 1
  · obtain ⟨n, hn, hdrawn⟩ := h.noise hodd
    exact .of_holding hstate (hn.trans h.draws_le) fun _ => by rw [hnoise, hxid, hdrawn]
  · exact .of_holding hstate (Nat.zero_le _) fun hodd' => absurd (hxid ▸ hodd') hodd

/-- Another draw in a state that counts its attempts. -/
theorem Drawn.of_draw {lease lease' : Lease} (h : lease.Drawn) (hxid : lease'.xid = lease.xid)
    (hnoise : lease'.noise = draw lease.noise) (hdraws : lease.draws < lease'.draws)
    (hattempts : lease'.attempts ≤ maxAttempts) : lease'.Drawn := by
  refine ⟨fun hodd => ?_, fun _ => hattempts⟩
  rw [hxid] at hodd ⊢
  obtain ⟨n, hn, hdrawn⟩ := h.noise hodd
  exact ⟨n + 1, by omega, by rw [hnoise, hdrawn, Function.iterate_succ_apply']⟩

end Lease

/-! ### One step -/

namespace Conversation

/-- The client is sound, and the conversation remembers what it asks for and
since when. -/
structure Sound (c : Conversation) : Prop where
  lease : c.lease.Sound
  drawn : c.lease.Drawn
  began : c.lease.began = c.since
  asking : c.Asking

theorem Asking.of_state {c : Conversation} (h : c.lease.state ≠ .requesting) : c.Asking := fun hstate => absurd hstate h

theorem conforms_notes {c : Conversation} (notes : List Text) (now : ℕ) :
    ∀ action ∈ notes.map Action.note, action.Conforms c now := by
  intro action haction
  obtain ⟨text, -, rfl⟩ := List.mem_map.mp haction
  trivial

/-- What one step does to a sound conversation. -/
structure Steps (c : Conversation) (event : Event) : Prop where
  drawn : (c.next event).lease.Drawn
  began : (c.next event).lease.began = (c.next event).since
  asking : (c.next event).Asking
  conforms : ∀ action ∈ (c.lease.next event).1, action.Conforms (c.next event) event.now
  xid : (c.next event).lease.xid ≠ c.lease.xid ↔ c.lease.starts event = true ∧ c.lease.xid ≠ stuckNoise

section

variable {c : Conversation} {event : Event} {out : List Action × Lease}

/-- A step that starts a transaction. -/
theorem Steps.of_started (h : c.Sound) (hout : c.lease.next event = out) (hstarts : c.lease.starts event = true)
    (hdrawn : out.2.Drawn) (hbegan : out.2.began = event.now) (hstate : out.2.state ≠ .requesting)
    (hxid : out.2.xid = draw c.lease.noise)
    (hconforms : ∀ c' : Conversation, c'.lease = out.2 → c'.lease.began = c'.since →
      ∀ action ∈ out.1, action.Conforms c' event.now) : c.Steps event := by
  subst hout
  have hsince : (c.next event).since = event.now := if_pos hstarts
  have hsame : (c.next event).lease.began = (c.next event).since := hbegan.trans hsince.symm
  refine ⟨hdrawn, hsame, .of_state hstate, hconforms _ rfl hsame, ?_⟩
  rw [hstarts, ← h.drawn.draw_ne_iff]
  simp [next, hxid]

/-- A step within a transaction. -/
theorem Steps.of_continued (h : c.Sound) (hout : c.lease.next event = out) (hstarts : c.lease.starts event = false)
    (hdrawn : out.2.Drawn) (hbegan : out.2.began = c.lease.began) (hxid : out.2.xid = c.lease.xid)
    (hasking : (c.next event).Asking)
    (hconforms : ∀ c' : Conversation, c'.lease = out.2 → c'.lease.began = c'.since → c'.Asking →
      ∀ action ∈ out.1, action.Conforms c' event.now) : c.Steps event := by
  subst hout
  have hsince : (c.next event).since = c.since := if_neg (by simp [hstarts])
  have hsame : (c.next event).lease.began = (c.next event).since := by rw [hsince, ← h.began]; exact hbegan
  refine ⟨hdrawn, hsame, hasking, hconforms _ rfl hsame hasking, ?_⟩
  rw [hstarts]
  simp [next, hxid]

theorem steps (h : c.Sound) (event : Event) : c.Steps event := by
  have hmoves := c.lease.moves event
  generalize hout : c.lease.next event = out at hmoves
  cases hmoves with
  | ignores message now hbinding =>
    refine .of_continued h hout rfl h.drawn rfl rfl ?_ (by simp)
    intro hstate
    have hlease : (c.next (.message message now)).lease = c.lease := congrArg Prod.snd hout
    rw [hlease] at hstate ⊢
    have hoffer : (c.next (.message message now)).offer = c.offer := by
      have hafter : (c.lease.next (.message message now)).2.state = .requesting := by rw [hout]; exact hstate
      simp [next, hstate]
    rw [hoffer]
    exact h.asking hstate
  | restarts now notes hstate =>
    refine .of_started h hout ?_ ⟨fun _ => ⟨1, le_rfl, rfl⟩, fun _ => (by decide : (1 : ℕ) ≤ maxAttempts)⟩ rfl
      (by simp) rfl ?_
    · rcases hstate with hs | ⟨hs | hs, hattempts⟩ <;> simp [Lease.starts, hs]
      · exact hattempts
      · exact hattempts
    · intro c' hlease hbegan action haction
      rcases List.mem_append.mp haction with hnote | hsent
      · exact conforms_notes notes now action hnote
      · rw [Lease.discover_sends, List.mem_singleton, ← hlease] at hsent
        rw [hsent]
        exact conforms_discover hbegan (by rw [hlease]; rfl) now
  | resends now hstate hattempts =>
    obtain ⟨hbegan, hxid, hnoise, hcount⟩ := Lease.retransmit_asking hstate now
    obtain ⟨-, hsame, -, hwanted, hserver, -⟩ := c.lease.retransmit_keeps now
    have hbound : maxAttempts = 5 := rfl
    refine .of_continued h hout ?_ (h.drawn.of_draw hxid hnoise ?_ ?_) hbegan hxid ?_ ?_
    · rcases hstate with hs | hs <;> simp [Lease.starts, hs, hattempts]
    · rcases hstate with hs | hs <;> simp only [Lease.draws, hsame, hs, hcount] <;> omega
    · rw [hcount]
      omega
    · intro hrequesting
      have hlease : (c.next (.timeout now)).lease = (c.lease.retransmit now).2 := congrArg Prod.snd hout
      rw [hlease, hsame] at hrequesting
      rw [hlease, hwanted, hserver]
      exact h.asking hrequesting
    · intro c' hlease hbegan hasking action haction
      rcases hstate with hs | hs
      · rw [(Lease.retransmit_sends now).1 hs, List.mem_singleton, ← hlease] at haction
        rw [haction]
        exact conforms_discover hbegan (by rw [hlease, hsame, hs]) now
      · rw [(Lease.retransmit_sends now).2.1 hs, List.mem_singleton, ← hlease] at haction
        rw [haction]
        exact conforms_selectingRequest hbegan hasking (by rw [hlease, hsame, hs]) now
  | renews now hstate =>
    obtain ⟨held, hheld⟩ := h.lease.exists_held (by rw [hstate]; rfl)
    obtain ⟨hbegan, hxid, hnoise⟩ := Lease.beginRenewing_draws hheld now
    obtain ⟨-, hnew, hkept, -⟩ := Lease.beginRenewing_of_held hheld now
    obtain ⟨text, hsends⟩ := Lease.beginRenewing_sends hheld now
    refine .of_started h hout (by simp [Lease.starts, hstate]) (.of_holding (by simp [hnew]) (Nat.zero_le _) fun _ => ?_)
      hbegan (by simp [hnew]) hxid ?_
    · rw [hnoise, hxid]
      rfl
    · intro c' hlease hbegan' action haction
      rw [hsends, List.mem_pair, ← hlease] at haction
      rcases haction with rfl | rfl
      · trivial
      · exact conforms_renewal hbegan' (by rw [hlease, hnew]) (by rw [hlease, hkept]) now
  | rebinds now hstate ht2 =>
    obtain ⟨held, hheld⟩ := h.lease.exists_held (by rw [hstate]; rfl)
    obtain ⟨-, hnew, hkept, -⟩ := c.lease.beginRebinding_leaves now
    obtain ⟨text, hsends⟩ := c.lease.beginRebinding_sends now
    refine .of_started h hout (by simp [Lease.starts, hstate, ht2])
      (.of_holding (by simp [hnew]) (Nat.zero_le _) fun _ => rfl) rfl (by simp [hnew]) rfl ?_
    intro c' hlease hbegan action haction
    rw [hsends, List.mem_pair, ← hlease] at haction
    rcases haction with rfl | rfl
    · trivial
    · exact conforms_rebinding hbegan (by rw [hlease, hnew]) (by rw [hlease, hkept, hheld]) now
  | asksAgain now hstate =>
    have hstates : c.lease.state = .renewing ∨ c.lease.state = .rebinding := by
      rcases hstate with ⟨hs, -⟩ | ⟨hs, -⟩ <;> simp [hs]
    obtain ⟨held, hheld⟩ := h.lease.exists_held (by rcases hstates with hs | hs <;> rw [hs] <;> rfl)
    obtain ⟨hbegan, hxid, hnoise⟩ := Lease.retransmit_holding hstates now
    obtain ⟨-, hsame, hkept, -⟩ := c.lease.retransmit_keeps now
    have hnot : (c.lease.retransmit now).2.state ≠ .selecting ∧ (c.lease.retransmit now).2.state ≠ .requesting := by
      rcases hstates with hs | hs <;> simp [hsame, hs]
    refine .of_continued h hout ?_ (h.drawn.of_same hnot hxid hnoise) hbegan hxid ?_ ?_
    · rcases hstate with ⟨hs, htimer⟩ | ⟨hs, htimer⟩ <;> simp [Lease.starts, hs, htimer]
    · have hlease : (c.next (.timeout now)).lease = (c.lease.retransmit now).2 := congrArg Prod.snd hout
      exact .of_state (by rw [hlease]; exact hnot.2)
    · intro c' hlease hbegan hasking action haction
      rcases hstates with hs | hs
      · rw [(Lease.retransmit_sends now).2.2.1 hs held hheld, List.mem_singleton, ← hlease] at haction
        rw [haction]
        exact conforms_renewal hbegan (by rw [hlease, hsame, hs]) (by rw [hlease, hkept, hheld]) now
      · rw [(Lease.retransmit_sends now).2.2.2 hs, List.mem_singleton, ← hlease] at haction
        rw [haction]
        exact conforms_rebinding hbegan (by rw [hlease, hsame, hs]) (by rw [hlease, hkept, hheld]) now
  | givesUp now hstate hexpired =>
    obtain ⟨text, hsends⟩ := c.lease.giveUp_sends now
    refine .of_started h hout (by simp [Lease.starts, hstate, hexpired])
      ⟨fun _ => ⟨1, le_rfl, rfl⟩, fun _ => (by decide : (1 : ℕ) ≤ maxAttempts)⟩ rfl
      (by simp [Lease.giveUp_leaves]) rfl ?_
    intro c' hlease hbegan action haction
    rw [hsends, ← hlease] at haction
    simp only [List.mem_cons, List.not_mem_nil, or_false] at haction
    rcases haction with rfl | rfl | rfl
    · trivial
    · trivial
    · exact conforms_discover hbegan (by rw [hlease]; rfl) now
  | requests message now hstate hoffered =>
    obtain ⟨hbegan, hxid, hnoise, hcount⟩ := (Lease.acceptOffer_draws hoffered now : (c.lease.acceptOffer message now).2.began = _ ∧ _)
    obtain ⟨-, hnew, -, hwanted, hserver, -⟩ := c.lease.acceptOffer_of_offered hoffered now
    obtain ⟨text, hsends⟩ := (Lease.acceptOffer_sends hoffered now : ∃ text, (c.lease.acceptOffer message now).1 = _)
    have hbound : maxAttempts = 5 := rfl
    have hfew := h.drawn.attempts (Or.inl hstate)
    refine .of_continued h hout rfl (h.drawn.of_draw hxid hnoise ?_ ?_) hbegan hxid ?_ ?_
    · simp only [Lease.draws, hstate, hnew, hcount]
      omega
    · rw [hcount]
      omega
    · intro _
      have hafter : (c.lease.next (.message message now)).2.state = .requesting := by rw [hout]; exact hnew
      have hlease : (c.next (.message message now)).lease = (c.lease.acceptOffer message now).2 :=
        congrArg Prod.snd hout
      have hoffer : (c.next (.message message now)).offer = some message := if_pos ⟨hstate, hafter⟩
      rw [hlease]
      exact ⟨message, hoffer, hwanted, hserver⟩
    · intro c' hlease hbegan hasking action haction
      rw [hsends, List.mem_pair, ← hlease] at haction
      rcases haction with rfl | rfl
      · trivial
      · exact conforms_selectingRequest hbegan hasking (by rw [hlease, hnew]) now
  | binds message now hbinding =>
    have haddress := Lease.address_of_binding hbinding
    obtain ⟨hbegan, hxid, hnoise⟩ := Lease.acceptAck_draws_nothing haddress now
    obtain ⟨-, hnew, -⟩ := Lease.acceptAck_of_address haddress now
    refine .of_continued h hout rfl (h.drawn.of_same (by simp [hnew]) hxid hnoise) hbegan hxid ?_ ?_
    · have hlease : (c.next (.message message now)).lease = (c.lease.acceptAck message now).2 :=
        congrArg Prod.snd hout
      exact .of_state (by simp [hlease, hnew])
    · intro c' _ _ _ action haction
      obtain ⟨notes, hactions⟩ := Lease.acceptAck_actions haddress now
      rw [hactions, List.mem_append] at haction
      rcases haction with hnote | hconfigure
      · exact conforms_notes notes now action hnote
      · split_ifs at hconfigure
        · exact absurd hconfigure List.not_mem_nil
        · rw [List.mem_singleton.mp hconfigure]
          trivial
  | refused message now hstate hbinding =>
    refine .of_continued h hout rfl (h.drawn.of_same (by simp [Lease.acceptNak_leaves]) rfl rfl) rfl rfl ?_ ?_
    · have hlease : (c.next (.message message now)).lease = (c.lease.acceptNak message now).2 :=
        congrArg Prod.snd hout
      exact .of_state (by simp [hlease, Lease.acceptNak_leaves])
    · intro c' _ _ _ action haction
      simp only [Lease.acceptNak, List.mem_cons] at haction
      rcases haction with rfl | haction
      · trivial
      · split at haction
        · rw [List.mem_singleton.mp haction]
          trivial
        · exact absurd haction List.not_mem_nil

end

theorem sound_next {c : Conversation} (h : c.Sound) (event : Event) : (c.next event).Sound := by
  have hsteps := steps h event
  exact ⟨(Lease.step_spec h.lease (c.lease.moves event)).1, hsteps.drawn, hsteps.began, hsteps.asking⟩

theorem sound_new (mac : Vector UInt8 6) (seed : UInt32) (start : ℕ) : (new mac seed start).Sound :=
  ⟨Lease.sound_new mac seed start, Lease.drawn_new mac seed start, rfl, .of_state (by simp [new, Lease.new])⟩

theorem obeysTable_iff {c : Conversation} (h : c.Sound) (event : Event) :
    c.ObeysTable event ↔ (c.lease.starts event = true → c.lease.xid ≠ stuckNoise) := by
  have hsteps := steps h event
  rw [ObeysTable, hsteps.xid]
  constructor
  · rintro ⟨-, hxid⟩ hstarts
    exact (hxid.mpr hstarts).2
  · intro hfresh
    exact ⟨hsteps.conforms, And.left, fun hstarts => ⟨hstarts, hfresh hstarts⟩⟩

/-- A run obeys the table exactly as long as no transaction starts while the
identifier is the word that is its own successor. -/
theorem table_obeyed_iff (mac : Vector UInt8 6) (seed : UInt32) (start : ℕ) (events : List Event) :
    (∀ transition ∈ path next (new mac seed start) events, transition.1.ObeysTable transition.2) ↔
      ∀ transition ∈ path next (new mac seed start) events,
        transition.1.lease.starts transition.2 = true → transition.1.lease.xid ≠ stuckNoise := by
  have hsound := Runs.invariant_path Sound (sound_new mac seed start) (fun _ event h => sound_next h event) events
  exact forall₂_congr fun transition hmem => obeysTable_iff (hsound transition hmem) transition.2

/-- A client seeded with that word never changes its identifier. -/
theorem stuck_seed : ¬ ∀ (mac : Vector UInt8 6) (seed : UInt32) (start : ℕ) (events : List Event),
    ∀ transition ∈ path next (new mac seed start) events, transition.1.ObeysTable transition.2 := by
  intro h
  have hfirst := (h #v[2, 0, 0, 0, 0, 1] 2456421193 0 [.timeout 0] _ (List.mem_singleton_self _)).2
  exact hfirst.mpr rfl (by decide +kernel)

end Conversation

end Kmsrs.Os
