import Kmsrs.Lib.Text

/-! DHCP messages as the client handles them: the fields it reads or writes and
the options, one for each code. -/

namespace Kmsrs.Os

abbrev Ipv4Addr := Vector UInt8 4

namespace Ipv4Addr

/-- `Ipv4Addr::UNSPECIFIED`. -/
def unspecified : Ipv4Addr := #v[0, 0, 0, 0]

def isUnspecified (address : Ipv4Addr) : Bool := address == unspecified

/-- `u32::from_be_bytes` of the octets. -/
def toBits (address : Ipv4Addr) : ℕ := address.toList.foldl (fun bits octet => bits * 256 + octet.toNat) 0

/-- The dotted decimal form. -/
def display (address : Ipv4Addr) : Text :=
  List.intercalate ['.'] (address.toList.map fun octet => Text.decimal octet.toNat)

end Ipv4Addr

inductive MessageType where
  | discover
  | offer
  | request
  | decline
  | ack
  | nak
  | release
  | inform
  | unknown (value : UInt8)
deriving DecidableEq

inductive OptionCode where
  | subnetMask
  | router
  | domainNameServer
  | domainName
  | broadcastAddr
  | ntpServers
  | requestedIpAddress
  | addressLeaseTime
  | messageType
  | serverIdentifier
  | parameterRequestList
  | message
  | maxMessageSize
  | renewal
  | rebinding
  | clientIdentifier
  | domainSearch
  | unknown (code : UInt8)
deriving DecidableEq

/-- The names of option 119 are held as they are displayed. -/
inductive DhcpOption where
  | subnetMask (mask : Ipv4Addr)
  | router (addresses : List Ipv4Addr)
  | domainNameServer (addresses : List Ipv4Addr)
  | domainName (domain : Text)
  | broadcastAddr (address : Ipv4Addr)
  | ntpServers (addresses : List Ipv4Addr)
  | requestedIpAddress (address : Ipv4Addr)
  | addressLeaseTime (seconds : UInt32)
  | messageType (kind : MessageType)
  | serverIdentifier (address : Ipv4Addr)
  | parameterRequestList (codes : List OptionCode)
  | message (text : Text)
  | maxMessageSize (size : UInt16)
  | renewal (seconds : UInt32)
  | rebinding (seconds : UInt32)
  | clientIdentifier (identifier : List UInt8)
  | domainSearch (names : List Text)
  | unknown (code : UInt8) (data : List UInt8)
deriving DecidableEq

def DhcpOption.code : DhcpOption → OptionCode
  | .subnetMask _ => .subnetMask
  | .router _ => .router
  | .domainNameServer _ => .domainNameServer
  | .domainName _ => .domainName
  | .broadcastAddr _ => .broadcastAddr
  | .ntpServers _ => .ntpServers
  | .requestedIpAddress _ => .requestedIpAddress
  | .addressLeaseTime _ => .addressLeaseTime
  | .messageType _ => .messageType
  | .serverIdentifier _ => .serverIdentifier
  | .parameterRequestList _ => .parameterRequestList
  | .message _ => .message
  | .maxMessageSize _ => .maxMessageSize
  | .renewal _ => .renewal
  | .rebinding _ => .rebinding
  | .clientIdentifier _ => .clientIdentifier
  | .domainSearch _ => .domainSearch
  | .unknown code _ => .unknown code

/-- The options of a message, at most one under a code. -/
structure DhcpOptions where
  entries : List (OptionCode × DhcpOption)
deriving DecidableEq

namespace DhcpOptions

def empty : DhcpOptions := ⟨[]⟩

def get (opts : DhcpOptions) (code : OptionCode) : Option DhcpOption := opts.entries.lookup code

def insert (opts : DhcpOptions) (option : DhcpOption) : DhcpOptions :=
  ⟨(option.code, option) :: opts.entries.filter (·.1 ≠ option.code)⟩

def msgType (opts : DhcpOptions) : Option MessageType :=
  match opts.get .messageType with
  | some (.messageType kind) => some kind
  | _ => none

@[simp] theorem get_empty (code : OptionCode) : empty.get code = none := rfl

theorem get_insert (opts : DhcpOptions) (option : DhcpOption) (code : OptionCode) :
    (opts.insert option).get code = if code = option.code then some option else opts.get code := by
  rw [get, insert, List.lookup_cons]
  by_cases h : code = option.code
  · simp [h]
  · simp only [beq_eq_false_iff_ne.mpr h, if_neg h, get]
    induction opts.entries with
    | nil => rfl
    | cons entry entries ih =>
      obtain ⟨other, value⟩ := entry
      by_cases hkeep : other = option.code
      · rw [List.filter_cons_of_neg (by simpa using hkeep), ih, List.lookup_cons,
          beq_eq_false_iff_ne.mpr fun hcode => h (hcode.trans hkeep)]
      · rw [List.filter_cons_of_pos (by simpa using hkeep), List.lookup_cons, List.lookup_cons, ih]

theorem get_insert_of_ne (opts : DhcpOptions) {option : DhcpOption} {code : OptionCode}
    (h : code ≠ option.code) : (opts.insert option).get code = opts.get code := by
  rw [get_insert, if_neg h]

end DhcpOptions

inductive HType where
  | eth
  | other (value : UInt8)
deriving DecidableEq

structure Message where
  xid : UInt32
  secs : UInt16
  /-- The one bit of `flags` that is defined. -/
  broadcast : Bool
  ciaddr : Ipv4Addr
  yiaddr : Ipv4Addr
  siaddr : Ipv4Addr
  giaddr : Ipv4Addr
  htype : HType
  chaddr : List UInt8
  opts : DhcpOptions
deriving DecidableEq

/-- `Message::new_with_id`: no options, and nothing that has to be drawn. -/
def Message.newWithId (xid : UInt32) (ciaddr yiaddr siaddr giaddr : Ipv4Addr) (chaddr : List UInt8) : Message :=
  { xid, secs := 0, broadcast := false, ciaddr, yiaddr, siaddr, giaddr, htype := .eth, chaddr, opts := .empty }

end Kmsrs.Os
