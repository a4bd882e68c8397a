import Kmsrs.Lib.Run
import Kmsrs.Os.LeaseRun

/-! The task that performs what the DHCP client asks for, and the netlink
requests by which an address reaches the interface. The task remembers the one
address it applied; the kernel files addresses under address and prefix length,
so a lease that keeps its address and changes its mask leaves two of them. -/

namespace Kmsrs.Os

open Duration

/-! ### Netlink -/

structure Interface where
  name : Text
  index : UInt32
  mac : Vector UInt8 6
deriving DecidableEq

structure AddressMessage where
  prefixLen : UInt8
  index : UInt32
  localAddress : Ipv4Addr
  address : Ipv4Addr
  broadcast : Option Ipv4Addr
deriving DecidableEq

structure RouteMessage where
  gateway : Ipv4Addr
  oif : UInt32
deriving DecidableEq

inductive RouteNetlinkMessage where
  | newAddress (message : AddressMessage)
  | delAddress (message : AddressMessage)
  | newRoute (message : RouteMessage)
deriving DecidableEq

def Ipv4Addr.ofBits (bits : ℕ) : Ipv4Addr :=
  #v[.ofNat (bits >>> 24), .ofNat (bits >>> 16), .ofNat (bits >>> 8), .ofNat bits]

/-- The broadcast address of the subnet an address sits in. -/
def broadcastOf (address : Ipv4Addr) (prefixLen : UInt8) : Option Ipv4Addr :=
  if 31 ≤ prefixLen then none else some (.ofBits (address.toBits ||| (2 ^ 32 - 1) >>> prefixLen.toNat))

section

-- What the kernel answers to a request, `none` for an acknowledgement, and what
-- the request leaves it with.
variable {K : Type} (exchange : RouteNetlinkMessage → K → Option Text × K)

/-- `link::configure`: the address, and the default route. -/
def configure (index : UInt32) (config : Config) (kernel : K) : Except Text (List Text) × K :=
  let message : AddressMessage :=
    { prefixLen := config.prefixLen, index, localAddress := config.address, address := config.address,
      broadcast := broadcastOf config.address config.prefixLen }
  match exchange (.newAddress message) kernel with
  | (some error, kernel) => (.error error, kernel)
  | (none, kernel) =>
    match config.routers.head? with
    | none => (.ok [], kernel)
    | some gateway =>
      match exchange (.newRoute { gateway, oif := index }) kernel with
      | (none, kernel) => (.ok [], kernel)
      | (some error, kernel) =>
        (.ok [error ++ "; this host can still be reached from its own segment".toList], kernel)

/-- `link::remove`: take an address off the interface. -/
def remove (index : UInt32) (address : Ipv4Addr) (prefixLen : UInt8) (kernel : K) : Except Text Unit × K :=
  let message : AddressMessage := { prefixLen, index, localAddress := address, address, broadcast := none }
  match exchange (.delAddress message) kernel with
  | (some error, kernel) => (.error error, kernel)
  | (none, kernel) => (.ok (), kernel)

end

/-! ### The task -/

/-- What the lease taught the rest of the program. -/
structure Network where
  searchDomains : List Text
  address : Option Ipv4Addr
deriving DecidableEq

/-- Where the time comes from, as the lease last described it. -/
structure Sources where
  ntp : List Ipv4Addr
  dns : List Ipv4Addr
deriving DecidableEq

def serverPort : ℕ := 67
def everyone : Ipv4Addr × ℕ := (#v[255, 255, 255, 255], serverPort)

/-- The task's state: the kernel, the address it applied, what it published,
the messages it sent and the lines it logged. -/
structure Task (K : Type) where
  kernel : K
  applied : Option (Ipv4Addr × UInt8)
  facts : Network
  sources : Sources
  sent : List (Message × Ipv4Addr × ℕ)
  said : List (Text × Text)

namespace Task

variable {K : Type} (exchange : RouteNetlinkMessage → K → Option Text × K) (interface : Interface)

def new (kernel : K) : Task K := ⟨kernel, none, ⟨[], none⟩, ⟨[], []⟩, [], []⟩

def say (task : Task K) (level : String) (detail : Text) : Task K :=
  { task with said := task.said ++ [(level.toList, detail)] }

def send (task : Task K) (message : Message) (destination : Ipv4Addr × ℕ) : Task K :=
  { task with sent := task.sent ++ [(message, destination)] }

/-- Tell the rest of the program what the lease said. -/
def publish (task : Task K) (config : Option Config) : Task K :=
  { task with
    facts := match config with
      | some config => ⟨config.search, some config.address⟩
      | none => ⟨[], none⟩
    sources := match config with
      | some config => ⟨config.ntp, config.dns⟩
      | none => ⟨[], []⟩ }

/-- An address and its prefix length, as logged. -/
def withPrefix (config : Config) : Text :=
  config.address.display ++ "/".toList ++ Text.decimal config.prefixLen.toNat

/-- The old address comes off first, if it is not the one arriving. -/
def takeOffPrevious (task : Task K) (config : Config) : Task K :=
  match task.applied with
  | some (previous, prefixLen) =>
    if previous ≠ config.address then
      match remove exchange interface.index previous prefixLen task.kernel with
      | (.error error, kernel) =>
        { task with kernel }.say "warn"
          ("cannot remove the old address ".toList ++ previous.display ++ ": ".toList ++ error)
      | (.ok (), kernel) => { task with kernel }
    else task
  | none => task

/-- Put a lease on the interface and publish what it taught. -/
def apply (task : Task K) (config : Config) : Task K :=
  let task := task.takeOffPrevious exchange interface config
  match configure exchange interface.index config task.kernel with
  | (.ok notes, kernel) =>
    let task := { task with kernel, applied := some (config.address, config.prefixLen) }
    let task := notes.foldl (fun task note => task.say "warn" note) task
    let lasts := match config.lease with
      | none => ", lease does not expire".toList
      | some lease => ", lease ".toList ++ Text.decimal (asSecs lease) ++ "s".toList
    let task := task.say "info" (withPrefix config ++ " on ".toList ++ interface.name ++ lasts)
    task.publish (some config)
  | (.error error, kernel) =>
    { task with kernel }.say "error" ("cannot set ".toList ++ withPrefix config ++ " on ".toList ++ interface.name ++
      ": ".toList ++ error ++
      "; this host has an address the kernel does not know about, so nothing will reach it".toList)

/-- Take the address off, because the lease is gone. -/
def withdraw (task : Task K) : Task K :=
  match task.applied with
  | none => task
  | some (address, prefixLen) =>
    let task := { task with applied := none }
    let task := match remove exchange interface.index address prefixLen task.kernel with
      | (.ok (), kernel) => { task with kernel }.say "warn" (address.display ++ " withdrawn".toList)
      | (.error error, kernel) =>
        { task with kernel }.say "error" ("cannot withdraw ".toList ++ address.display ++ ": ".toList ++ error)
    task.publish none

/-- Carry out one thing the state machine asked for. -/
def perform (task : Task K) : Action → Task K
  | .broadcast message => task.send message everyone
  | .unicast message server => task.send message (server, serverPort)
  | .note text => task.say "info" text
  | .configure config => task.apply exchange interface config
  | .deconfigure => task.withdraw exchange interface

end Task

/-! ### A kernel that keeps pairs -/

/-- The addresses of the interface: adding files an address under itself and its
prefix length, and removing takes that one entry out. No request fails. -/
def accept (request : RouteNetlinkMessage) (addresses : Finset (Ipv4Addr × UInt8)) :
    Option Text × Finset (Ipv4Addr × UInt8) :=
  match request with
  | .newAddress message => (none, insert (message.localAddress, message.prefixLen) addresses)
  | .delAddress message => (none, addresses.erase (message.localAddress, message.prefixLen))
  | .newRoute _ => (none, addresses)

theorem configure_accept (index : UInt32) (config : Config) (addresses : Finset (Ipv4Addr × UInt8)) :
    configure accept index config addresses =
      (.ok [], insert (config.address, config.prefixLen) addresses) := by
  rw [configure, accept]
  cases config.routers.head? <;> rfl

theorem remove_accept (index : UInt32) (address : Ipv4Addr) (prefixLen : UInt8)
    (addresses : Finset (Ipv4Addr × UInt8)) :
    remove accept index address prefixLen addresses = (.ok (), addresses.erase (address, prefixLen)) := rfl

/-- The entry a configuration asks for. -/
def Config.entry (config : Config) : Ipv4Addr × UInt8 := (config.address, config.prefixLen)

/-- What should be on the interface when `carried` was configured last. -/
def entries (carried : Option Config) : Finset (Ipv4Addr × UInt8) := (carried.map Config.entry).toFinset

/-- The task at work, and the configuration last asked for. -/
structure Performed where
  task : Task (Finset (Ipv4Addr × UInt8))
  carried : Option Config

namespace Performed

def new : Performed := ⟨.new ∅, none⟩

def next (interface : Interface) (performed : Performed) (action : Action) : Performed :=
  ⟨performed.task.perform accept interface action, action.settle performed.carried⟩

/-- The interface carries exactly the configuration last asked for. -/
def Exact (performed : Performed) : Prop := performed.task.kernel = entries performed.carried

/-- The condition: a configuration that keeps the address keeps the prefix
length. -/
def KeepsMask (performed : Performed) : Action → Prop
  | .configure config => ∀ previous, performed.carried = some previous →
      previous.address = config.address → previous.prefixLen = config.prefixLen
  | .deconfigure | .broadcast _ | .unicast _ _ | .note _ => True

/-- The task remembers what was asked for. -/
def Remembers (performed : Performed) : Prop := performed.task.applied = performed.carried.map Config.entry

variable {interface : Interface} {performed : Performed}

theorem kernel_apply (h : performed.Remembers) (config : Config) :
    (performed.task.apply accept interface config).kernel =
        insert config.entry (match performed.carried with
          | some previous =>
            if previous.address ≠ config.address then performed.task.kernel.erase previous.entry
            else performed.task.kernel
          | none => performed.task.kernel) ∧
      (performed.task.apply accept interface config).applied = some config.entry := by
  rw [Task.apply, configure_accept]
  refine ⟨?_, rfl⟩
  show insert config.entry (performed.task.takeOffPrevious accept interface config).kernel = _
  rw [Task.takeOffPrevious, h]
  cases performed.carried with
  | none => rfl
  | some previous =>
    simp only [Option.map_some, Config.entry, remove_accept]
    split_ifs <;> rfl

theorem kernel_withdraw (h : performed.Remembers) :
    (performed.task.withdraw accept interface).kernel = (match performed.carried with
      | some previous => performed.task.kernel.erase previous.entry
      | none => performed.task.kernel) ∧
      (performed.task.withdraw accept interface).applied = none := by
  rw [Remembers] at h
  rw [Task.withdraw]
  cases hcarried : performed.carried with
  | none =>
    rw [hcarried] at h
    simp only [h, Option.map_none]
    exact ⟨trivial, trivial⟩
  | some previous =>
    rw [hcarried] at h
    simp only [h, Option.map_some, Config.entry, remove_accept]
    exact ⟨rfl, rfl⟩

theorem remembers_next (h : performed.Remembers) (action : Action) : (performed.next interface action).Remembers := by
  cases action with
  | configure config => exact (kernel_apply h config).2
  | deconfigure => exact (kernel_withdraw h).2
  | broadcast message => exact h
  | unicast message server => exact h
  | note text => exact h

@[simp] theorem entries_none : entries none = ∅ := rfl

@[simp] theorem entries_some (config : Config) : entries (some config) = {config.entry} := rfl

/-- A second entry beside the one asked for is no second one only if it is the
same. -/
theorem insert_entry_iff {config previous : Config} (haddress : previous.address = config.address) :
    insert config.entry ({previous.entry} : Finset (Ipv4Addr × UInt8)) = {config.entry} ↔
      previous.prefixLen = config.prefixLen := by
  have hentry : previous.entry = config.entry ↔ previous.prefixLen = config.prefixLen := by
    simp [Config.entry, haddress]
  rw [← hentry]
  constructor
  · intro hsame
    have hmem : previous.entry ∈ insert config.entry ({previous.entry} : Finset (Ipv4Addr × UInt8)) :=
      Finset.mem_insert_of_mem (Finset.mem_singleton_self _)
    rw [hsame] at hmem
    exact Finset.mem_singleton.mp hmem
  · intro hsame
    rw [hsame, Finset.insert_eq_of_mem (Finset.mem_singleton_self _)]

theorem exact_configure_iff (h : performed.Remembers) (hexact : performed.Exact) (config : Config) :
    (performed.next interface (.configure config)).Exact ↔ performed.KeepsMask (.configure config) := by
  rw [Exact] at hexact
  show (performed.task.apply accept interface config).kernel = {config.entry} ↔ _
  rw [(kernel_apply h config).1, KeepsMask, hexact]
  cases performed.carried with
  | none => simp
  | some previous =>
    simp only [entries_some, Option.some_inj, forall_eq', Finset.erase_singleton]
    by_cases haddress : previous.address = config.address
    · rw [if_neg (not_not.mpr haddress), insert_entry_iff haddress]
      exact ⟨fun hsame _ => hsame, fun hsame => hsame haddress⟩
    · rw [if_pos haddress]
      exact iff_of_true (by simp) fun hsame => absurd hsame haddress

theorem exact_withdraw (h : performed.Remembers) (hexact : performed.Exact) :
    (performed.next interface .deconfigure).Exact := by
  rw [Exact] at hexact
  show (performed.task.withdraw accept interface).kernel = ∅
  rw [(kernel_withdraw h).1, hexact]
  cases performed.carried with
  | none => rfl
  | some previous => exact Finset.erase_singleton _

theorem exact_next_iff (h : performed.Remembers) (hexact : performed.Exact) (action : Action) :
    (performed.next interface action).Exact ↔ performed.KeepsMask action := by
  cases action with
  | configure config => exact exact_configure_iff h hexact config
  | deconfigure => exact iff_of_true (exact_withdraw h hexact) trivial
  | broadcast message => exact iff_of_true hexact trivial
  | unicast message server => exact iff_of_true hexact trivial
  | note text => exact iff_of_true hexact trivial

/-- The interface carries exactly the leased address after each action, if and
only if every configuration that keeps the address keeps its prefix length. -/
theorem leased_address_iff (interface : Interface) (actions : List Action) :
    (∀ performed ∈ actions.scanl (next interface) new, performed.Exact) ↔
      ∀ transition ∈ path (next interface) new actions, transition.1.KeepsMask transition.2 :=
  forall_scanl_iff (I := Remembers) (fun _ action h => remembers_next h action) (fun _ action h hexact => exact_next_iff h hexact action)
    (show Remembers new from rfl) (show Exact new from rfl) actions

/-- A configuration without options beyond the address and the prefix length. -/
def plain (address : Ipv4Addr) (prefixLen : UInt8) : Config :=
  ⟨address, prefixLen, [], [], [], [], address, none⟩

/-- A renewal that changes only the mask leaves two entries. -/
theorem changed_mask_two_entries : ¬ ∀ (interface : Interface) (actions : List Action),
    ∀ performed ∈ actions.scanl (next interface) new, performed.Exact := by
  intro h
  have htwo := h ⟨"eth0".toList, 2, #v[2, 0, 0, 0, 0, 1]⟩
    [.configure (plain #v[10, 0, 0, 9] 24), .configure (plain #v[10, 0, 0, 9] 16)] _
    (List.mem_cons_of_mem _ (List.mem_cons_of_mem _ (List.mem_singleton_self _)))
  exact absurd htwo (by unfold Exact; decide +kernel)

end Performed

end Kmsrs.Os
