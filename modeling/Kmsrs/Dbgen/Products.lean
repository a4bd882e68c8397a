import Kmsrs.Dbgen.Merging

/-! The products of an extraction. Each is assembled from what the directories give for
its key, and they stand in the order of their groups and keys. -/

namespace Kmsrs.Dbgen

open Kmsrs.Kms Kmsrs.Sorted Kmsrs.Preferred

/-- The licences of a product, read through, give the licence kept. -/
theorem keptLicence_eq (contents : List Contents) (product : Guid) :
    preferred (fun entry : Licence × Text => entry.1.counts)
      (((contents.flatMap fun directory => directory.readings.map fun reading => (directory.source.id, reading.licence)).filter
        fun entry => entry.2.productSkuId = some product).map Prod.swap) = keptLicence contents product := by
  have hpiece : ∀ directory : Contents, ((directory.readings.map fun reading =>
      (directory.source.id, reading.licence)).filter fun entry => entry.2.productSkuId = some product).map Prod.swap =
        (directory.licences product).map fun licence => (licence, directory.source.id) := by
    intro directory
    rw [Contents.licences]
    induction directory.readings with
    | nil => rfl
    | cons reading readings ih =>
      by_cases h : reading.licence.productSkuId = some product
      · simpa [Reading.licenceOf, h] using ih
      · simpa [Reading.licenceOf, h] using ih
  rw [List.filter_flatMap, List.map_flatMap]
  simp only [hpiece, preferred_flatMap, preferred_map]
  rfl

namespace Extraction

/-- Each product takes its own blocks. -/
theorem joinProducts_eq_map (licences : List (Guid × Licence × Text)) (applications : List (Text × Option Guid))
    (ranges : List (Guid × List KeyBlock)) {products : List Product} (h : (products.map Product.activationId).Nodup) :
    joinProducts licences applications ranges products = products.map fun product =>
      joinLicence licences applications (match valueOf ranges product.activationId with
        | none => product
        | some keyBlocks => { product with keyBlocks }) := by
  induction products generalizing ranges with
  | nil => rfl
  | cons product products ih =>
    obtain ⟨hfirst, hrest⟩ := List.nodup_cons.mp h
    rw [joinProducts, ih _ hrest, List.map_cons]
    refine congrArg₂ _ rfl (List.map_congr_left fun later hlater => ?_)
    have hother : later.activationId ≠ product.activationId := fun hsame => hfirst (hsame ▸ List.mem_map_of_mem hlater)
    rw [valueOf_erase ranges hother]

/-- A product of the extraction, joined and put in order. -/
theorem sort_joinLicence {contents : List Contents} {extraction : Extraction} {ranges : List PkeyKeyRange}
    (hranges : ∀ product, (valueOf extraction.ranges product).getD [] = ranges.filterMap (PkeyKeyRange.block product))
    (hall : ranges = contents.flatMap Contents.ranges)
    (hlicences : ∀ product, valueOf extraction.licences product = keptLicence contents product)
    (hsources : extraction.sources = contents.map Contents.toSource) (sourceId : Text) (configuration : PkeyConfiguration) :
    Product.sort (joinLicence extraction.licences (applicationBySource extraction.sources)
      (match valueOf extraction.ranges configuration.activationId with
        | none => newProduct sourceId configuration
        | some keyBlocks => { newProduct sourceId configuration with keyBlocks })) =
      assemble contents sourceId configuration := by
  have hblocks := hranges configuration.activationId
  rw [hall, List.filterMap_flatMap] at hblocks
  have htaken : (match valueOf extraction.ranges configuration.activationId with
      | none => newProduct sourceId configuration
      | some keyBlocks => { newProduct sourceId configuration with keyBlocks }) =
        { newProduct sourceId configuration with
          keyBlocks := contents.flatMap fun directory =>
            directory.ranges.filterMap (PkeyKeyRange.block configuration.activationId) } := by
    rw [← hblocks]
    cases valueOf extraction.ranges configuration.activationId with
    | none => rfl
    | some keyBlocks => rfl
  rw [htaken, joinLicence, hlicences, hsources, assemble]
  cases hkept : keptLicence contents configuration.activationId with
  | none =>
    simp [newProduct, Product.sort, sourceApplication_eq, hkept]
  | some kept =>
    cases happlication : kept.1.applicationId with
    | none => simp [newProduct, Product.sort, sourceApplication_eq, hkept, happlication]
    | some application => simp [newProduct, Product.sort, hkept, happlication]

end Extraction

/-- The directories that are extracted, and what each holds. -/
def Extracts (readers : Readers) (roots : List Root) (contents : List Contents) : Prop :=
  List.Forall₂ (fun root directory => readRoot readers root = some directory) roots contents ∧ Admitted contents

/-- The products, in order, are those that the directories give. -/
structure Lists (contents : List Contents) (products : List Product) : Prop where
  increasing : Increasing Product.sortKey products
  mem_iff : ∀ product, product ∈ products ↔ productOf contents product.activationId = some product

theorem activationId_of_productOf {contents : List Contents} {id : Guid} {product : Product}
    (h : productOf contents id = some product) : product.activationId = id := by
  obtain ⟨entry, hentry, rfl⟩ := Option.map_eq_some_iff.mp h
  simpa [assemble, newProduct] using List.find?_some hentry

/-- What an extraction gives. -/
theorem extract_eq_ok {readers : Readers} {roots : List Root} {database : Database}
    (h : extract readers roots = .ok database) : ∃ contents, Extracts readers roots contents ∧ Lists contents database.products := by
  obtain ⟨extraction, hfold, rfl⟩ : ∃ extraction : Extraction,
      roots.foldlM (Extraction.absorbRoot readers) ⟨[], [], [], [], []⟩ = .ok extraction ∧ database = extraction.toDatabase := by
    rw [extract] at h
    cases hfold : roots.foldlM (Extraction.absorbRoot readers) ⟨[], [], [], [], []⟩ with
    | error message =>
      rw [hfold] at h
      cases h
    | ok extraction =>
      rw [hfold] at h
      exact ⟨extraction, rfl, (Except.ok.inj h).symm⟩
  obtain ⟨contents, hread, hattributable, hgroups, rfl⟩ :=
    (Extraction.foldRoots_eq_ok_iff Extraction.holds_nil groupsAgree_nil readers roots extraction).mp hfold
  have hholds := Extraction.holds_nil.foldContents contents
  have hsources := Extraction.sources_foldContents contents ⟨[], [], [], [], []⟩
  generalize contents.foldl Extraction.addContents ⟨[], [], [], [], []⟩ = extraction at hholds hsources
  simp only [List.nil_append] at hholds hgroups hsources
  refine ⟨contents, ⟨hread, hattributable, hgroups⟩, ?_⟩
  have hlicences : ∀ product, valueOf extraction.licences product = keptLicence contents product :=
    fun product => (hholds.licences product).trans (keptLicence_eq contents product)
  have hjoined : ∀ row ∈ extraction.products, ∃ entry, (configurations contents).find?
      (fun entry => entry.2.activationId = row.activationId) = some entry ∧ row = newProduct entry.1 entry.2 := by
    intro row hrow
    have hfound := (find?_key_eq_some_iff hholds.nodup).mpr ⟨hrow, rfl⟩
    rw [hholds.products, Option.map_eq_some_iff] at hfound
    obtain ⟨entry, hentry, rfl⟩ := hfound
    exact ⟨entry, hentry, rfl⟩
  have hassembled := Extraction.sort_joinLicence hholds.ranges rfl hlicences hsources
  have hproducts : extraction.toDatabase.products =
      (sortBy Product.sortKey (extraction.products.map fun product =>
        Extraction.joinLicence extraction.licences (Extraction.applicationBySource extraction.sources)
          (match valueOf extraction.ranges product.activationId with
            | none => product
            | some keyBlocks => { product with keyBlocks }))).map Product.sort := by
    rw [Extraction.toDatabase, Database.sort, Extraction.joinProducts_eq_map _ _ _ hholds.nodup]
  rw [hproducts]
  generalize hjoin : (fun product : Product =>
    Extraction.joinLicence extraction.licences (Extraction.applicationBySource extraction.sources)
      (match valueOf extraction.ranges product.activationId with
        | none => product
        | some keyBlocks => { product with keyBlocks })) = join
  have hsorted : ∀ entry : Text × PkeyConfiguration,
      Product.sort (join (newProduct entry.1 entry.2)) = assemble contents entry.1 entry.2 := by
    intro entry
    rw [← hjoin]
    exact hassembled entry.1 entry.2
  have hid : ∀ row ∈ extraction.products, (join row).activationId = row.activationId := by
    intro row hrow
    obtain ⟨entry, -, rfl⟩ := hjoined row hrow
    have hkept := congrArg Product.activationId (hsorted entry)
    exact hkept
  constructor
  · have hids : ((extraction.products.map join).map Product.activationId).Nodup := by
      rw [List.map_map, List.map_congr_left (f := Product.activationId ∘ join) hid]
      exact hholds.nodup
    have hkeys : ((extraction.products.map join).map Product.sortKey).Nodup := by
      refine List.Nodup.of_map (fun key => (ofLex key).2) ?_
      rw [List.map_map]
      exact (List.map_map (f := Product.activationId) (g := Db.rank)).symm ▸ hids.map Db.rank_injective
    have hincreasing := increasing_sortBy hkeys
    rw [Increasing, List.map_map]
    exact hincreasing
  · intro product
    simp only [List.mem_map, mem_sortBy, productOf, Option.map_eq_some_iff]
    constructor
    · rintro ⟨_, ⟨row, hrow, rfl⟩, rfl⟩
      obtain ⟨entry, hentry, rfl⟩ := hjoined row hrow
      rw [hsorted]
      exact ⟨entry, hentry, rfl⟩
    · rintro ⟨entry, hentry, rfl⟩
      have hrow := hholds.products (assemble contents entry.1 entry.2).activationId
      rw [hentry, Option.map_some] at hrow
      exact ⟨_, ⟨_, List.mem_of_find?_eq_some hrow, rfl⟩, hsorted entry⟩

/-- It succeeds just when the directories can be read and merged. -/
theorem exists_extract_eq_ok_iff {readers : Readers} {roots : List Root} :
    (∃ database, extract readers roots = .ok database) ↔ ∃ contents, Extracts readers roots contents := by
  constructor
  · rintro ⟨database, h⟩
    obtain ⟨contents, hextracts, -⟩ := extract_eq_ok h
    exact ⟨contents, hextracts⟩
  · rintro ⟨contents, hread, hattributable, hgroups⟩
    have hfold := (Extraction.foldRoots_eq_ok_iff Extraction.holds_nil groupsAgree_nil readers roots _).mpr
      ⟨contents, hread, hattributable, by simpa using hgroups, rfl⟩
    exact ⟨_, by rw [extract, hfold]; rfl⟩

end Kmsrs.Dbgen
