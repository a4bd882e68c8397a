import Kmsrs.Lib.Duration
import Kmsrs.Os.Dhcp

/-! The DHCP client's state machine, with time and entropy as inputs: what it
does when its deadline passes, what it does with a message, and the actions it
asks its caller to take. -/

namespace Kmsrs.Os

open Duration

def firstBackoff : ℕ := fromSecs 4
def maxBackoff : ℕ := fromSecs 64
def afterNak : ℕ := fromSecs 10
def maxAttempts : ℕ := 5
def minRetry : ℕ := fromSecs 60

/-- A lease with this many seconds never expires. -/
def infinite : UInt32 := 0xFFFFFFFF

def t1Numerator : ℕ := 1
def t1Denominator : ℕ := 2
def t2Numerator : ℕ := 7
def t2Denominator : ℕ := 8

inductive State where
  | init
  | selecting
  | requesting
  | bound
  | renewing
  | rebinding
deriving DecidableEq

/-- What a lease says the interface should look like. -/
structure Config where
  address : Ipv4Addr
  prefixLen : UInt8
  routers : List Ipv4Addr
  dns : List Ipv4Addr
  ntp : List Ipv4Addr
  search : List Text
  server : Ipv4Addr
  /-- `none` for an infinite lease. -/
  lease : Option ℕ
deriving DecidableEq

inductive Action where
  | broadcast (message : Message)
  | unicast (message : Message) (server : Ipv4Addr)
  | configure (config : Config)
  | deconfigure
  | note (text : Text)
deriving DecidableEq

structure Held where
  config : Config
  t1 : ℕ
  t2 : ℕ
  expires : Option ℕ
deriving DecidableEq

structure Lease where
  mac : Vector UInt8 6
  state : State
  xid : UInt32
  noise : UInt32
  began : ℕ
  deadline : ℕ
  backoff : ℕ
  attempts : ℕ
  held : Option Held
  wanted : Option Ipv4Addr
  offeredBy : Option Ipv4Addr
deriving DecidableEq

/-! ### Reading a reply -/

/-- The midpoint between now and `target`, floored at `minRetry`. -/
def halfway (now target : ℕ) : ℕ :=
  let remaining := target - now
  let half := min (max (remaining / 2) minRetry) (max remaining minRetry)
  saturatingAdd now half

/-- A fraction of a lease, or `none` for an infinite one. -/
def fraction (lease : Option ℕ) (numerator denominator : ℕ) : Option ℕ :=
  lease.bind fun lease =>
    let seconds := asSecs lease * numerator
    if seconds < 2 ^ 64 ∧ denominator ≠ 0 then some (fromSecs (seconds / denominator)) else none

/-- Option 54, if the server sent one. -/
def serverIdentifier (message : Message) : Option Ipv4Addr :=
  match message.opts.get .serverIdentifier with
  | some (.serverIdentifier address) => some address
  | _ => none

/-- An option that counts seconds; the largest count stands for no end. -/
def optionSeconds (message : Message) (code : OptionCode) : Option ℕ :=
  let seconds := match code, message.opts.get code with
    | .addressLeaseTime, some (.addressLeaseTime seconds) => some seconds
    | .renewal, some (.renewal seconds) => some seconds
    | .rebinding, some (.rebinding seconds) => some seconds
    | _, _ => none
  seconds.bind fun seconds => if seconds = infinite then none else some (fromSecs seconds.toNat)

/-- The prefix length of a netmask: its leading ones. -/
def prefixOf (mask : Ipv4Addr) : UInt8 :=
  .ofNat (((List.range 32).takeWhile fun i => mask.toBits.testBit (31 - i)).length)

/-- The classful prefix for an address, for a server that sent no option 1. -/
def classfulPrefix (address : Ipv4Addr) : UInt8 :=
  let first := address.toList.headD 0
  if first < 128 then 8 else if first < 192 then 16 else 24

/-- Everything the interface should be configured with, out of one reply. -/
def configuration (message : Message) (address : Ipv4Addr) : Config :=
  let opts := message.opts
  let mask := match opts.get .subnetMask with
    | some (.subnetMask mask) => some mask
    | _ => none
  let routers := match opts.get .router with
    | some (.router addresses) => addresses
    | _ => []
  let dns := match opts.get .domainNameServer with
    | some (.domainNameServer addresses) => addresses
    | _ => []
  let ntp := match opts.get .ntpServers with
    | some (.ntpServers addresses) => addresses
    | _ => []
  -- Option 119 supersedes option 15, whose one domain is appended.
  let search := match opts.get .domainSearch with
    | some (.domainSearch names) => (names.map (Text.trimEndMatches '.')).filter (¬ ·.isEmpty)
    | _ => []
  let search := match opts.get .domainName with
    | some (.domainName domain) =>
      let domain := Text.trimEndMatches '.' (Text.trim domain)
      if ¬ domain.isEmpty ∧ ¬ search.any (· == domain) then search ++ [domain] else search
    | _ => search
  { address
    prefixLen := match mask with
      | some mask => prefixOf mask
      | none => classfulPrefix address
    routers, dns, ntp, search
    server := (serverIdentifier message).getD message.siaddr
    lease := optionSeconds message .addressLeaseTime }

/-- One step of the xorshift generator. -/
def xorshift (noise : UInt32) : UInt32 :=
  let noise := noise ^^^ (noise <<< 13)
  let noise := noise ^^^ (noise >>> 17)
  noise ^^^ (noise <<< 5)

namespace Lease

/-- A client that has not sent anything yet. -/
def new (mac : Vector UInt8 6) (seed : UInt32) (now : ℕ) : Lease :=
  { mac, state := .init, xid := seed, noise := seed ||| 1, began := now, deadline := now,
    backoff := firstBackoff, attempts := 0, held := none, wanted := none, offeredBy := none }

/-- The lease currently held, if any. -/
def config (lease : Lease) : Option Config := lease.held.map (·.config)

def pastT2 (lease : Lease) (now : ℕ) : Bool :=
  match lease.held with
  | some held => held.t2 ≤ now
  | none => false

def expired (lease : Lease) (now : ℕ) : Bool :=
  match lease.held.bind (·.expires) with
  | some expires => expires ≤ now
  | none => false

def nextNoise (lease : Lease) : UInt32 × Lease :=
  let noise := xorshift lease.noise ||| 1
  (noise, { lease with noise })

def nextXid (lease : Lease) : UInt32 × Lease := lease.nextNoise

/-- A deadline `after` from now, moved by less than a second either way. -/
def jittered (lease : Lease) (now after : ℕ) : ℕ × Lease :=
  let (noise, lease) := lease.nextNoise
  let offset := fromMillis (noise.toNat % 2000)
  (saturatingAdd (saturatingAdd now after) offset - fromSecs 1, lease)

/-! ### Messages sent -/

def parameterRequestList : List OptionCode :=
  [.subnetMask, .router, .domainNameServer, .domainName, .broadcastAddr, .ntpServers, .addressLeaseTime,
    .renewal, .rebinding, .domainSearch]

/-- The fields every message this client sends has in common. -/
def blank (lease : Lease) (kind : MessageType) (ciaddr : Ipv4Addr) (now : ℕ) : Message :=
  let message := Message.newWithId lease.xid ciaddr .unspecified .unspecified .unspecified lease.mac.toList
  let seconds := asSecs (now - lease.began)
  { message with
    htype := .eth
    secs := if seconds < 2 ^ 16 then .ofNat seconds else 0xFFFF
    opts := (((message.opts.insert (.messageType kind)).insert (.clientIdentifier (1 :: lease.mac.toList))).insert
      (.maxMessageSize 1472)).insert (.parameterRequestList parameterRequestList) }

/-- A REQUEST that answers an OFFER. -/
def selectingRequest (lease : Lease) (now : ℕ) : Message :=
  let message := { lease.blank .request .unspecified now with broadcast := true }
  let message := match lease.wanted with
    | some wanted => { message with opts := message.opts.insert (.requestedIpAddress wanted) }
    | none => message
  match lease.offeredBy with
  | some server => { message with opts := message.opts.insert (.serverIdentifier server) }
  | none => message

/-- A REQUEST that renews or rebinds. -/
def boundRequest (lease : Lease) (now : ℕ) : Message :=
  let address := match lease.held with
    | some held => held.config.address
    | none => .unspecified
  lease.blank .request address now

/-! ### Transitions -/

/-- Start a fresh transaction and broadcast a DISCOVER. -/
def discover (lease : Lease) (now : ℕ) : List Action × Lease :=
  let (xid, lease) := lease.nextXid
  let lease := { lease with
    xid, state := .selecting, began := now, backoff := firstBackoff, attempts := 1,
    wanted := none, offeredBy := none }
  let (deadline, lease) := lease.jittered now firstBackoff
  let lease := { lease with deadline }
  ([.broadcast { lease.blank .discover .unspecified now with broadcast := true }], lease)

/-- Send whatever the current state is sending, again. -/
def retransmit (lease : Lease) (now : ℕ) : List Action × Lease :=
  let lease := { lease with attempts := min (lease.attempts + 1) (2 ^ 32 - 1) }
  match lease.state with
  | .selecting =>
    let lease := { lease with backoff := min (saturatingMul lease.backoff 2) maxBackoff }
    let (deadline, lease) := lease.jittered now lease.backoff
    let lease := { lease with deadline }
    ([.broadcast { lease.blank .discover .unspecified now with broadcast := true }], lease)
  | .requesting =>
    let lease := { lease with backoff := min (saturatingMul lease.backoff 2) maxBackoff }
    let (deadline, lease) := lease.jittered now lease.backoff
    let lease := { lease with deadline }
    ([.broadcast (lease.selectingRequest now)], lease)
  | .renewing =>
    let target := match lease.held with
      | some held => held.t2
      | none => now
    let lease := { lease with deadline := halfway now target }
    let message := lease.boundRequest now
    match lease.held with
    | none => ([.broadcast message], lease)
    | some held => ([.unicast message held.config.server], lease)
  | .rebinding =>
    let target := (lease.held.bind (·.expires)).getD now
    let lease := { lease with deadline := halfway now target }
    ([.broadcast { lease.boundRequest now with broadcast := true }], lease)
  | .init | .bound => ([], lease)

/-- Take the first offer and ask for it. -/
def acceptOffer (lease : Lease) (message : Message) (now : ℕ) : List Action × Lease :=
  let offered := message.yiaddr
  if offered.isUnspecified then ([], lease)
  else
    let server := (serverIdentifier message).getD message.siaddr
    let lease := { lease with
      state := .requesting, wanted := some offered, offeredBy := some server, backoff := firstBackoff,
      attempts := 1 }
    let (deadline, lease) := lease.jittered now firstBackoff
    let lease := { lease with deadline }
    ([.note (server.display ++ " offered ".toList ++ offered.display), .broadcast (lease.selectingRequest now)],
      lease)

/-- The address an ACK is about: a renewal may leave it out and mean the one
held. -/
def ackAddress (lease : Lease) (message : Message) : Ipv4Addr :=
  if message.yiaddr.isUnspecified then
    match lease.held with
    | some held => held.config.address
    | none => message.yiaddr
  else message.yiaddr

/-- What an accepted ACK leaves in hand. -/
def granted (message : Message) (address : Ipv4Addr) (now : ℕ) : Held :=
  let config := configuration message address
  let t1 := (optionSeconds message .renewal).or (fraction config.lease t1Numerator t1Denominator)
  let t2 := (optionSeconds message .rebinding).or (fraction config.lease t2Numerator t2Denominator)
  { config
    t1 := saturatingAdd now (t1.getD longest)
    t2 := saturatingAdd now (t2.getD longest)
    expires := config.lease.map (saturatingAdd now) }

/-- What an operator is told when a lease is about another address than before. -/
def movedNotes (previous : Option Ipv4Addr) (address : Ipv4Addr) : List Text :=
  match previous with
  | some previous =>
    if previous ≠ address then
      ["the lease moved from ".toList ++ previous.display ++ " to ".toList ++ address.display ++
        "; anything pointing at ".toList ++ previous.display ++
        " — an SRV record, a client's slmgr /skms — is now wrong".toList]
    else []
  | none => []

/-- The server agreed. Bind, and work out when to renew. -/
def acceptAck (lease : Lease) (message : Message) (now : ℕ) : List Action × Lease :=
  let address := lease.ackAddress message
  if address.isUnspecified then ([], lease)
  else
    let previous := lease.held.map (·.config.address)
    let config := configuration message address
    let changed := previous ≠ some address ∨ lease.config ≠ some config
    let held := granted message address now
    let lease := { lease with
      held := some held, state := .bound, wanted := none, offeredBy := none, attempts := 0,
      deadline := held.t1 }
    ((movedNotes previous address).map .note ++ if changed then [.configure config] else [], lease)

/-- The server refused. Whatever was held is gone. -/
def acceptNak (lease : Lease) (message : Message) (now : ℕ) : List Action × Lease :=
  let reason := match message.opts.get .message with
    | some (.message text) => ": ".toList ++ text
    | _ => []
  let had := lease.held.isSome
  let lease := { lease with
    held := none, wanted := none, offeredBy := none, state := .init, attempts := 0,
    deadline := saturatingAdd now afterNak }
  (.note ("the server refused the lease".toList ++ reason) :: if had then [.deconfigure] else [], lease)

/-- T1 arrived: start renewing with the server that granted the lease. -/
def beginRenewing (lease : Lease) (now : ℕ) : List Action × Lease :=
  match lease.held with
  | none => lease.discover now
  | some held =>
    let lease := { lease with state := .renewing }
    let (xid, lease) := lease.nextXid
    let lease := { lease with xid, began := now, attempts := 1, deadline := halfway now held.t2 }
    ([.note "renewing".toList, .unicast (lease.boundRequest now) held.config.server], lease)

/-- T2 arrived: the granting server is not answering, so ask anybody. -/
def beginRebinding (lease : Lease) (now : ℕ) : List Action × Lease :=
  let expires := lease.held.bind (·.expires)
  let lease := { lease with state := .rebinding }
  let (xid, lease) := lease.nextXid
  let lease := { lease with xid, began := now, attempts := 1, deadline := halfway now (expires.getD now) }
  ([.note ("the server that granted this lease has stopped answering; ".toList ++
      "asking any server on this segment".toList),
    .broadcast { lease.boundRequest now with broadcast := true }], lease)

/-- The lease ran out with nobody willing to renew it. -/
def giveUp (lease : Lease) (now : ℕ) : List Action × Lease :=
  let note := match lease.held with
    | some held => "the lease on ".toList ++ held.config.address.display ++
        " expired and no server renewed it; giving the address up and starting again".toList
    | none => "the lease expired".toList
  let (actions, lease) := { lease with held := none }.discover now
  ([.note note, .deconfigure] ++ actions, lease)

/-- Nothing arrived and the deadline passed. -/
def onTime (lease : Lease) (now : ℕ) : List Action × Lease :=
  match lease.state with
  | .init => lease.discover now
  | .selecting =>
    if maxAttempts ≤ lease.attempts then
      let (actions, lease) := { lease with state := .init }.discover now
      (.note "no DHCP server answered; retrying".toList :: actions, lease)
    else lease.retransmit now
  | .requesting =>
    if maxAttempts ≤ lease.attempts then
      let (actions, lease) := { lease with state := .init, wanted := none, offeredBy := none }.discover now
      (.note "the server offered an address and then stopped answering".toList :: actions, lease)
    else lease.retransmit now
  | .bound => lease.beginRenewing now
  | .renewing => if lease.pastT2 now then lease.beginRebinding now else lease.retransmit now
  | .rebinding => if lease.expired now then lease.giveUp now else lease.retransmit now

/-- A datagram arrived and parsed. -/
def onMessage (lease : Lease) (message : Message) (now : ℕ) : List Action × Lease :=
  if message.xid ≠ lease.xid then ([], lease)
  else if message.chaddr ≠ lease.mac.toList then ([], lease)
  else
    match lease.state, message.opts.msgType with
    | .selecting, some .offer => lease.acceptOffer message now
    | .requesting, some .ack | .renewing, some .ack | .rebinding, some .ack => lease.acceptAck message now
    | .requesting, some .nak | .renewing, some .nak | .rebinding, some .nak => lease.acceptNak message now
    | _, _ => ([], lease)

end Lease

end Kmsrs.Os
