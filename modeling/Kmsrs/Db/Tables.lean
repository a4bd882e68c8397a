import Kmsrs.Kms.Types
import Kmsrs.Lib.Sorted

/-! The product tables and the lookups over them. A table is in the order of its
ids and is searched by halving; a catalogue carries the assertions that the build
compiles into it. -/

namespace Kmsrs.Db

open Kmsrs.Kms Kmsrs.Sorted

/-- Identifiers are ordered byte by byte. -/
def rank (guid : Guid) : List ℕ := guid.toList.map UInt8.toNat

theorem rank_injective : Function.Injective rank := by
  intro a b h
  have hbytes : a.toList = b.toList := List.map_injective_iff.mpr (fun _ _ => UInt8.toNat_inj.mp) h
  exact Vector.toList_inj.mp hbytes

/-! ### Rows -/

inductive KeyKind where
  | kmsHost
  | kmsClient
  | multipleActivation
  | retail
  | originalEquipment
  | evaluation
  | other
deriving DecidableEq

def KeyKind.isVolume : KeyKind → Bool
  | .kmsHost | .kmsClient | .multipleActivation => true
  | _ => false

structure Application where
  guid : Guid
  name : String

/-- Key ids from `start` to `stop`, both included. -/
structure KeyBlock where
  start : UInt32
  stop : UInt32
deriving DecidableEq

structure Product where
  activationId : Guid
  groupId : UInt32
  kind : KeyKind
  keyType : String
  editionId : String
  description : String
  application : Option Guid

/-- A key of a host, with what it counts. -/
structure Csvlk where
  activationId : Guid
  groupId : UInt32
  description : String
  application : Option Guid
  keyBlocks : List KeyBlock
  countedIds : List Guid

/-- A product clients ask for, with the places of the host keys that count it. -/
structure CountedId where
  guid : Guid
  csvlks : List UInt16

/-! ### Pre-release products -/

/-- `u8::eq_ignore_ascii_case`. -/
def eqIgnoreAsciiCase (a b : UInt8) : Bool :=
  let lower := fun byte : UInt8 => if 65 ≤ byte ∧ byte ≤ 90 then byte + 32 else byte
  lower a = lower b

def containsIgnoringCase (haystack needle : List UInt8) : Bool :=
  if haystack.length < needle.length then false
  else (List.range (haystack.length - needle.length + 1)).any fun start =>
    (((haystack.drop start).take needle.length).zip needle).all fun (a, b) => eqIgnoreAsciiCase a b

def previewMarkers : List String := ["Beta", "Pre-Release", "Prerelease", "Preview"]

/-- The description says so. -/
def Product.isPreview (product : Product) : Bool :=
  previewMarkers.any fun marker =>
    containsIgnoringCase product.description.toUTF8.toList marker.toUTF8.toList

/-! ### Tables -/

structure Tables where
  applications : List Application
  products : List Product
  csvlks : List Csvlk
  countedIds : List CountedId

/-- What is asserted when the tables are compiled: each is in order, so that it can
be searched; every counted id names host keys of the table; and every host key
can produce an identity. -/
structure Tables.Asserted (tables : Tables) : Prop where
  applications_increasing : Increasing (fun row => rank row.guid) tables.applications
  products_increasing : Increasing (fun row => rank row.activationId) tables.products
  countedIds_increasing : Increasing (fun row => rank row.guid) tables.countedIds
  counted : ∀ row ∈ tables.countedIds, row.csvlks ≠ [] ∧
    ∀ index ∈ row.csvlks, index.toNat < tables.csvlks.length
  hosts : ∀ row ∈ tables.csvlks, row.keyBlocks ≠ [] ∧ 0 < row.groupId

instance (tables : Tables) : Decidable tables.Asserted :=
  decidable_of_iff
    (Increasing (fun row => rank row.guid) tables.applications ∧
      Increasing (fun row => rank row.activationId) tables.products ∧
      Increasing (fun row => rank row.guid) tables.countedIds ∧
      (∀ row ∈ tables.countedIds, row.csvlks ≠ [] ∧ ∀ index ∈ row.csvlks, index.toNat < tables.csvlks.length) ∧
      ∀ row ∈ tables.csvlks, row.keyBlocks ≠ [] ∧ 0 < row.groupId)
    ⟨fun ⟨ha, hp, hc, hi, hh⟩ => ⟨ha, hp, hc, hi, hh⟩, fun ⟨ha, hp, hc, hi, hh⟩ => ⟨ha, hp, hc, hi, hh⟩⟩

/-- Compiled tables. There is a host key to fall back to. -/
structure Catalogue extends Tables where
  asserted : toTables.Asserted
  csvlks_ne_nil : csvlks ≠ []

/-! ### Lookups -/

namespace Tables

def product (tables : Tables) (activationId : Guid) : Option Product :=
  lookup (fun row : Product => rank row.activationId) tables.products (rank activationId)

def csvlkAt (tables : Tables) (index : UInt16) : Option Csvlk := tables.csvlks[index.toNat]?

/-- Every host key that counts a product; none for a product never heard of. -/
def csvlksCounting (tables : Tables) (countedId : Guid) : List UInt16 :=
  match lookup (fun row : CountedId => rank row.guid) tables.countedIds (rank countedId) with
  | none => []
  | some row => row.csvlks

def isKnownCountedId (tables : Tables) (countedId : Guid) : Bool := !(tables.csvlksCounting countedId).isEmpty

end Tables

end Kmsrs.Db
