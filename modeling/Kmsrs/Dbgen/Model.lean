import Kmsrs.Db.Tables
import Kmsrs.Lib.Text

/-! The extracted database, before it is written out. Every table is put into an
order that is a function of its rows. -/

namespace Kmsrs.Dbgen

open Kmsrs.Kms Kmsrs.Sorted

/-! ### Rows -/

/-- A directory of artifacts and where they came from. -/
structure Source where
  id : Text
  description : Text
  origin : Text
  sha256 : Text
  application : Option Guid
deriving DecidableEq

structure Application where
  guid : Guid
  name : Text
  source : Text
deriving DecidableEq

/-- Key ids from `start` to `stop`, both included. -/
structure KeyBlock where
  partNumber : Text
  start : UInt32
  stop : UInt32
deriving DecidableEq

/-- A product key configuration, joined to its host licence where there is one. -/
structure Product where
  activationId : Guid
  groupId : UInt32
  editionId : Text
  description : Text
  keyType : Text
  keyBlocks : List KeyBlock
  application : Option Guid
  countedIds : List Guid
  cmidExpirationMinutes : Option UInt32
  source : Text
  licenceSource : Option Text
deriving DecidableEq

structure HostBuild where
  build : UInt32
  platformId : UInt32
  releaseDate : Option Text
  useForEpid : Bool
  ndr64 : Bool
  description : Text
deriving DecidableEq

/-- A client setup key, as it is published. -/
structure Gvlk where
  release : Text
  edition : Text
  key : Text
  source : Text
deriving DecidableEq

structure Lcid where
  value : UInt32
  tag : Text
  language : Text
  location : Text
deriving DecidableEq

structure Database where
  sources : List Source
  applications : List Application
  products : List Product
  hostBuilds : List HostBuild
  lcids : List Lcid
  gvlks : List Gvlk
deriving DecidableEq

/-! ### Order -/

/-- Texts are ordered by their code points. -/
def codes (text : Text) : List ℕ := text.map Char.toNat

theorem codes_injective : Function.Injective codes :=
  List.map_injective_iff.mpr fun _ _ h => Char.toNat_inj.mp h

/-- Stable, in the order of a key. -/
def sortBy {α κ : Type*} [LinearOrder κ] (key : α → κ) (rows : List α) : List α :=
  rows.insertionSort fun a b => key a ≤ key b

namespace KeyBlock

def sortKey (block : KeyBlock) : ℕ ×ₗ ℕ ×ₗ List ℕ :=
  toLex (block.start.toNat, toLex (block.stop.toNat, codes block.partNumber))

theorem sortKey_injective : Function.Injective sortKey := by
  intro a b h
  obtain ⟨hstart, h⟩ := Prod.mk.inj (toLex.injective h)
  obtain ⟨hstop, hpart⟩ := Prod.mk.inj (toLex.injective h)
  cases a
  cases b
  simp only [KeyBlock.mk.injEq]
  exact ⟨codes_injective hpart, UInt32.toNat_inj.mp hstart, UInt32.toNat_inj.mp hstop⟩

end KeyBlock

namespace Product

def sortKey (product : Product) : ℕ ×ₗ List ℕ := toLex (product.groupId.toNat, Db.rank product.activationId)

/-- Identical blocks are one block, and so are identical ids. -/
def sort (product : Product) : Product :=
  { product with
    keyBlocks := dropRepeats (sortBy KeyBlock.sortKey product.keyBlocks)
    countedIds := dropRepeats (sortBy Db.rank product.countedIds) }

end Product

def Gvlk.sortKey (gvlk : Gvlk) : List ℕ ×ₗ List ℕ ×ₗ List ℕ :=
  toLex (codes gvlk.release, toLex (codes gvlk.edition, codes gvlk.key))

/-- Every table in a stable order. -/
def Database.sort (database : Database) : Database where
  sources := sortBy (fun source => codes source.id) database.sources
  applications := sortBy (fun application => Db.rank application.guid) database.applications
  products := (sortBy Product.sortKey database.products).map Product.sort
  hostBuilds := sortBy (fun entry => entry.build.toNat) database.hostBuilds
  lcids := sortBy (fun entry => entry.value.toNat) database.lcids
  gvlks := dropRepeats (sortBy Gvlk.sortKey database.gvlks)

/-! ### What sorting keeps -/

section
variable {α κ : Type*} [LinearOrder κ] {key : α → κ}

theorem perm_sortBy (key : α → κ) (rows : List α) : (sortBy key rows).Perm rows := List.perm_insertionSort _ rows

@[simp] theorem mem_sortBy {rows : List α} {row : α} : row ∈ sortBy key rows ↔ row ∈ rows := (perm_sortBy key rows).mem_iff

theorem pairwise_sortBy (key : α → κ) (rows : List α) : (sortBy key rows).Pairwise fun a b => key a ≤ key b := by
  have htotal : Std.Total fun a b => key a ≤ key b := ⟨fun a b => le_total (key a) (key b)⟩
  have htrans : IsTrans α fun a b => key a ≤ key b := ⟨fun _ _ _ => le_trans⟩
  exact List.pairwise_insertionSort _ rows

/-- Where no key comes twice the order is strict. -/
theorem increasing_sortBy {rows : List α} (h : (rows.map key).Nodup) : Increasing key (sortBy key rows) := by
  have hnodup : ((sortBy key rows).map key).Nodup := ((perm_sortBy key rows).map key).nodup_iff.mpr h
  have hsorted : ((sortBy key rows).map key).Pairwise (· ≤ ·) := List.pairwise_map.mpr (pairwise_sortBy key rows)
  exact hsorted.imp₂ (fun _ _ => lt_of_le_of_ne) hnodup

/-- With a key that tells all rows apart, the result depends on the rows alone. -/
theorem sortBy_eq_of_perm (hkey : Function.Injective key) {rows rows' : List α} (h : rows.Perm rows') :
    sortBy key rows = sortBy key rows' := by
  have hperm : (sortBy key rows).Perm (sortBy key rows') :=
    (perm_sortBy key rows).trans (h.trans (perm_sortBy key rows').symm)
  have hkeys : ∀ a b, a ∈ sortBy key rows → b ∈ sortBy key rows' → key a ≤ key b → key b ≤ key a → a = b :=
    fun a b _ _ hab hba => hkey (le_antisymm hab hba)
  exact List.Perm.eq_of_pairwise hkeys (pairwise_sortBy key rows) (pairwise_sortBy key rows') hperm

end

end Kmsrs.Dbgen
