import Kmsrs.Policy.Counting
import Kmsrs.Policy.Identity

/-! The product gate. A request is refused when the catalogue says that no client
can hold its product, or that the product is of another application; a product the
catalogue does not list is always answered. Only a granted request is counted. -/

namespace Kmsrs.Policy.Gate

open Kmsrs.Kms Kmsrs.Wire Kmsrs.Db Kmsrs.Policy.Counting

/-- The build's flags. -/
structure Features where
  permissiveRetail : Bool
  strictClockSkew : Bool
deriving DecidableEq

namespace Features

def default : Features := ⟨false, false⟩

def refuseNonVolume (features : Features) : Bool := !features.permissiveRetail
def refusePreview (features : Features) : Bool := !features.permissiveRetail
def refuseClockSkew (features : Features) : Bool := features.strictClockSkew

end Features

/-- Four hours, in nanoseconds. -/
def clockSkewTolerance : ℕ := 4 * 3600 * 10 ^ 9

/-- The time between two readings of a hundred nanoseconds each. -/
def absDifference (a b : UInt64) : ℕ := 100 * ((a.toNat - b.toNat) + (b.toNat - a.toNat))

inductive Refusal where
  | nonVolumeProduct (kind : KeyKind)
  | previewProduct
  | applicationMismatch
  | clockSkew (skew : ℕ)
deriving DecidableEq

def Refusal.hresult : Refusal → HResult
  | .nonVolumeProduct _ | .previewProduct | .applicationMismatch => .notSupportedByKmsServer
  | .clockSkew _ => .timestampDiffers

structure Grant where
  identity : GroupIdentity
  selection : CsvlkSelection
  counts : CountView
  intervals : Intervals

inductive Decision where
  | grant (grant : Grant)
  | refuse (refusal : Refusal)

/-- What is logged of a request whichever way it went. -/
structure Observations where
  knownProduct : Bool
  clockSkew : Option ℕ
  clockSkewed : Bool
deriving DecidableEq

def observations (catalogue : Catalogue) (request : Request) (hostTime : Option UInt64) : Observations :=
  let clockSkew := hostTime.map fun host => absDifference host request.clientTime
  { knownProduct := (catalogue.product request.counted).isSome || catalogue.isKnownCountedId request.counted
    clockSkew
    clockSkewed := clockSkew.any fun skew => clockSkewTolerance < skew }

/-- The gates, in their order. -/
def refusal (features : Features) (catalogue : Catalogue) (request : Request) (hostTime : Option UInt64) :
    Option Refusal :=
  let product := catalogue.product request.counted
  let observed := observations catalogue request hostTime
  if features.refuseNonVolume && product.any fun entry => !entry.kind.isVolume then
    product.map fun entry => .nonVolumeProduct entry.kind
  else if features.refusePreview && product.any Product.isPreview then some .previewProduct
  else if (product.bind Product.application).any fun application => application ≠ request.application then
    some .applicationMismatch
  else if features.refuseClockSkew && observed.clockSkewed then observed.clockSkew.map .clockSkew
  else none

/-- Decide a request, and count it if it is granted. -/
def evaluate (features : Features) {catalogue : Catalogue} (request : Request) (identity : HostIdentity catalogue)
    (counts : ClientCounts) (now : Instant) (hostTime : Option UInt64) :
    Decision × Observations × ClientCounts :=
  let observed := observations catalogue request hostTime
  match refusal features catalogue request hostTime with
  | some refusal => (.refuse refusal, observed, counts)
  | none =>
    let (selection, group) := identity.select request.application request.counted
    let (view, counts) := counts.observe request.application request.clientMachineId request.requiredClients now
    (.grant { identity := group, selection, counts := view, intervals := .default }, observed, counts)

/-! ### What is decided -/

section
variable (features : Features) {catalogue : Catalogue} (request : Request) (identity : HostIdentity catalogue)
  (counts : ClientCounts) (now : Instant) (hostTime : Option UInt64)

/-- A request that a gate stops is not counted; one that none stops is granted, as
the host key selected for it, and counted. -/
theorem evaluate_cases :
    (∃ refused, refusal features catalogue request hostTime = some refused ∧
      evaluate features request identity counts now hostTime =
        (.refuse refused, observations catalogue request hostTime, counts)) ∨
    (refusal features catalogue request hostTime = none ∧
      evaluate features request identity counts now hostTime =
        (.grant
          { identity := (identity.select request.application request.counted).2
            selection := (identity.select request.application request.counted).1
            counts := (counts.observe request.application request.clientMachineId request.requiredClients now).1
            intervals := .default },
          observations catalogue request hostTime,
          (counts.observe request.application request.clientMachineId request.requiredClients now).2)) := by
  cases h : refusal features catalogue request hostTime with
  | some refused => exact .inl ⟨refused, rfl, by rw [evaluate, h]⟩
  | none => exact .inr ⟨rfl, by rw [evaluate, h]⟩

/-- A request that is granted is answered as the key and with the identity that were
selected for it. -/
theorem selected_of_grant {grant : Grant}
    (hgrant : (evaluate features request identity counts now hostTime).1 = .grant grant) :
    grant.selection = (identity.select request.application request.counted).1 ∧
      grant.identity = (identity.select request.application request.counted).2 := by
  rcases evaluate_cases features request identity counts now hostTime with ⟨refused, -, h⟩ | ⟨-, h⟩
  · rw [h] at hgrant
    cases hgrant
  · rw [h] at hgrant
    cases hgrant
    exact ⟨rfl, rfl⟩

end

/-! ### Two host keys -/

/-- A host key of each of two applications; what the first of them counts is not
listed as a product. -/
def twoHosts : Document where
  application := some
    [⟨some "0ff1ce15-a989-479d-af46-f275c6370663", some "Office 2013 and later"⟩,
      ⟨some "55c92734-d682-4d71-983e-d6ec3f16059f", some "Windows"⟩]
  product := some
    [{ activationId := some "84e331f6-4279-48c4-ab10-b75139181351"
       groupId := some 4919
       description := some "Windows Server 2025 RTM ServerDatacenter;ServerStandard Volume:CSVLK"
       editionId := some "ServerDatacenter;ServerStandard"
       keyType := some "Volume:CSVLK"
       application := some "55c92734-d682-4d71-983e-d6ec3f16059f"
       countedIds := some [some "907f1f65-adcd-4a2e-95bc-4bf500bc6e58"]
       keyBlocks := some [⟨some 0, some 19999⟩, ⟨some 20000, some 20019999⟩] },
     { activationId := some "f3d89bbf-c0ec-47ce-a8fa-e5a5f97e447f"
       groupId := some 206
       description := some "Office24_KMSHost2024VL_KMS_Host"
       editionId := some "KMSHost2024Volume"
       keyType := some "Volume:CSVLK"
       application := some "0ff1ce15-a989-479d-af46-f275c6370663"
       countedIds := some [some "a8973cb5-bf03-0a4c-9cef-703099645ab3"]
       keyBlocks := some [⟨some 591000000, some 610999999⟩] }]

theorem generate_twoHosts : (generate twoHosts).isSome = true := by decide +kernel

def twoKeys : Catalogue := (generate twoHosts).get generate_twoHosts

theorem generate_twoKeys : generate twoHosts = some twoKeys := (Option.some_get _).symm

def windows : Guid := ((parseGuid "55c92734-d682-4d71-983e-d6ec3f16059f").get (by decide +kernel))
def office : Guid := ((parseGuid "0ff1ce15-a989-479d-af46-f275c6370663").get (by decide +kernel))
def server2025 : Guid := ((parseGuid "907f1f65-adcd-4a2e-95bc-4bf500bc6e58").get (by decide +kernel))

/-- Server 2025's id is counted by the first key, and no product has it. -/
theorem twoKeys_server2025 :
    (twoKeys.product server2025).isNone ∧ twoKeys.csvlksCounting server2025 = [0] ∧
      twoKeys.csvlks.map Csvlk.application = [some windows, some office] := by
  decide +kernel

def sampleGroup : GroupIdentity where
  epid :=
    { units := "03612-00206-591-000000-03-1033-26100.0000-2132024".toList.map fun c => .ofNat c.toNat
      le_max := by decide +kernel
      ne_zero := by decide +kernel }
  hardwareId := Vector.replicate 8 1

def twoIdentities : HostIdentity twoKeys where
  groups := [sampleGroup, sampleGroup]
  length_groups := by
    rw [← List.length_map (f := Csvlk.application), twoKeys_server2025.2.2]
    rfl

def sampleRequest (application counted : Guid) : Request where
  version := ⟨6, 0⟩
  clientKind := .bareMetal
  licenseStatus := .unlicensed
  grace := 0
  application
  sku := counted
  counted
  clientMachineId := Vector.replicate 16 0x11
  requiredClients := 25
  clientTime := 133000000000000000
  previousClientMachineId := none
  workstationName := .empty

end Kmsrs.Policy.Gate
