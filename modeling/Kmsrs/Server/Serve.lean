import Kmsrs.Server.Audit
import Kmsrs.Server.Handle
import Kmsrs.Wire.Asked

/-! A read at the host. What handling a read does to the host is to activate, one
after the other, the requests that its steps put to it, all in the context of that
read. -/

namespace Kmsrs.Server

open Kmsrs.Kms Kmsrs.Wire Kmsrs.Db Kmsrs.Policy.Gate

section
variable {ε σ : Type}

/-- The requests that stepping until the connection waits or closes puts to the host. -/
def askedAll (env : Env ε σ) (now : Instant) (machine : Machine ε σ) (scratch : List UInt8) : List Request :=
  let outcome := machine.stepped env now scratch
  match _h : outcome.step with
  | .send _ => outcome.asked.toList ++ askedAll env now (.after outcome) outcome.out
  | .needMore | .sendThenClose _ _ | .close _ => outcome.asked.toList
termination_by machine.connection.inbound.length
decreasing_by exact inbound_lt_of_send _h

/-- The requests of a read. -/
def asked (machine : Machine ε σ) (read : Read ε σ) : List Request :=
  match machine.connection.receive read.input with
  | none => []
  | some connection => askedAll read.env read.now { machine with connection } (List.replicate maxResponseLen 0)

variable {env : Env ε σ} {now : Instant}

theorem asked_eq_foldl (host : σ) (request : Option Request) :
    env.asked host request = request.toList.foldl (fun host request => (env.activate host request).2) host := by
  cases request <;> rfl

theorem askedAll_of_send {machine : Machine ε σ} {scratch : List UInt8} {len : ℕ}
    (h : (machine.stepped env now scratch).step = .send len) :
    askedAll env now machine scratch = (machine.stepped env now scratch).asked.toList ++
      askedAll env now (.after (machine.stepped env now scratch)) (machine.stepped env now scratch).out := by
  rw [askedAll]
  split <;> simp_all

theorem askedAll_of_not_send {machine : Machine ε σ} {scratch : List UInt8}
    (h : ∀ len, (machine.stepped env now scratch).step ≠ .send len) :
    askedAll env now machine scratch = (machine.stepped env now scratch).asked.toList := by
  rw [askedAll]
  split <;> simp_all

theorem host_answerAll (machine : Machine ε σ) (scratch : List UInt8) :
    (answerAll env now machine scratch).1.host =
      (askedAll env now machine scratch).foldl (fun host request => (env.activate host request).2) machine.host := by
  have hstepped : ∀ (machine : Machine ε σ) (scratch : List UInt8),
      (machine.stepped env now scratch).host =
        (machine.stepped env now scratch).asked.toList.foldl (fun host request => (env.activate host request).2)
          machine.host := by
    intro machine scratch
    rw [← asked_eq_foldl]
    exact Connection.host_step env machine.entropy machine.host scratch machine.connection now
  induction machine, scratch using answerAll_induction env now with
  | waits machine scratch h =>
    rw [answerAll_of_needMore h, askedAll_of_not_send (by simp [h])]
    exact hstepped machine scratch
  | closes machine scratch h =>
    have hlast : ∀ len, (machine.stepped env now scratch).step ≠ .send len := by
      intro len hsend
      rw [hsend] at h
      cases h
    rw [(answerAll_of_closes h).1, askedAll_of_not_send hlast]
    exact hstepped machine scratch
  | sends machine scratch len h ih =>
    rw [answerAll_of_send h, askedAll_of_send h, List.foldl_append, ← hstepped machine scratch]
    exact ih

/-- Handling a read activates its requests, in their order. -/
theorem host_handle (machine : Machine ε σ) (read : Read ε σ) :
    (handle machine read).machine.host =
      (asked machine read).foldl (fun host request => (read.env.activate host request).2) machine.host := by
  unfold handle asked
  cases machine.connection.receive read.input with
  | none => rfl
  | some connection => exact host_answerAll _ _

end

/-! ### The server's host -/

open Kmsrs.Policy.Events

section
variable {ε : Type} {catalogue : Catalogue} (features : Features) (digests : Crypto.Digests) (rng : EntropySource ε)

/-- A read as the driver hands it to the server. -/
structure Delivery where
  input : List UInt8
  context : RequestContext

/-- The host as a step sees it, in the context of a read. -/
def hostEnv (context : RequestContext) : Env ε (Host catalogue) where
  digests
  rng
  activate host request := host.activate features request context

def Delivery.read (delivery : Delivery) : Read ε (Host catalogue) :=
  ⟨delivery.input, delivery.context.now, hostEnv features digests rng delivery.context⟩

/-- What a delivery puts to the host. -/
def asks (machine : Machine ε (Host catalogue)) (delivery : Delivery) : List Ask :=
  (asked machine (delivery.read features digests rng)).map fun request => ⟨request, delivery.context⟩

variable {features digests rng}

theorem context_of_mem_asks {machine : Machine ε (Host catalogue)} {delivery : Delivery} {ask : Ask}
    (h : ask ∈ asks features digests rng machine delivery) : ask.context = delivery.context := by
  obtain ⟨request, -, rfl⟩ := List.mem_map.mp h
  rfl

/-- The host after a delivery is the host after what was put to it. -/
theorem host_delivery (machine : Machine ε (Host catalogue)) (delivery : Delivery) :
    (handle machine (delivery.read features digests rng)).machine.host =
      (asks features digests rng machine delivery).foldl (Host.next features) machine.host := by
  rw [host_handle, asks, List.foldl_map]
  rfl

end

/-! ### A sample call -/

open Kmsrs.Layout

/-- The Windows host key, which the catalogue lists as a product of Windows. -/
def hostKey : Guid := (parseGuid "84e331f6-4279-48c4-ab10-b75139181351").get (by decide +kernel)

def hostKeyBody (application : Guid) : RequestBody where
  version := Version.v4.toProtocolVersion.toWire
  isClientVm := 0
  licenseStatus := 0
  graceTime := 0
  applicationId := .fromGuid application
  skuId := .fromGuid hostKey
  kmsCountedId := .fromGuid hostKey
  clientMachineId := .fromGuid (Vector.replicate 16 0x11)
  requiredClients := 25
  clientTime := 0
  previousClientMachineId := .fromGuid .zero
  workstationName := Vector.replicate 64 0

def bindBytes : List UInt8 := Machine.framed .bind .complete 1 (Bind.proposal [0] Wire.ndr32)

/-- A version 4 request for the host key, in NDR32. -/
def callBytes (application : Guid) : List UInt8 :=
  Machine.framed .request .complete 2
    (u32.encode 268 ++ u16.encode 0 ++ u16.encode 0 ++ u32.encode 252 ++ u32.encode 252 ++
      RequestBody.layout.encode (hostKeyBody application) ++ List.replicate 16 0)

def freshHost : Host twoKeys := Host.new twoIdentities

/-- A connection that was accepted and has sent its bind. -/
def boundConnection : Connection :=
  (handle (accept 0 false 1688 () freshHost)
    (Delivery.read .default Connection.denying.digests Connection.denying.rng
      ⟨bindBytes, none, 0, none⟩)).machine.connection

end Kmsrs.Server
