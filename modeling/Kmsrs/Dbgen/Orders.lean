import Kmsrs.Dbgen.Products
import Kmsrs.Lib.Rows

/-! Reading the directories in another order. Of the configurations of a key only the
groups are compared, and of its licences nothing is, so that elsewhere the first one
read is kept without a word. The order is free, and no disagreement is passed over, just
when no two artifacts disagree and what the directories leave open is the same in all
of them. -/

namespace Kmsrs.Dbgen

open Kmsrs.Kms Kmsrs.Sorted Kmsrs.Preferred

/-! ### The rule -/

/-- Without where it came from. -/
def Product.unsourced (product : Product) : Product := { product with source := [], licenceSource := none }

/-- Both fail, or they give the same products. -/
def SameOutcome : Result Database → Result Database → Prop
  | .ok database, .ok other => database.products.map Product.unsourced = other.products.map Product.unsourced
  | .error _, .error _ => True
  | _, _ => False

/-- What two artifacts give for one key is the same. An application that is not named
and a list that is empty are not given. -/
structure Reading.Agrees (a b : Reading) : Prop where
  configurations : ∀ configuration ∈ a.configurations, ∀ other ∈ b.configurations,
    configuration.activationId = other.activationId → configuration = other
  applications : ∀ product, a.licence.productSkuId = some product → b.licence.productSkuId = some product →
    ∀ application ∈ a.licence.applicationId, ∀ other ∈ b.licence.applicationId, application = other
  countedIds : ∀ product, a.licence.productSkuId = some product → b.licence.productSkuId = some product →
    a.licence.countedIds ≠ [] → b.licence.countedIds ≠ [] → a.licence.countedIds = b.licence.countedIds

def artifacts (roots : List Root) : List Artifact := roots.flatMap fun root => root.artifacts.toOption.getD []

/-- No two artifacts disagree. -/
def Agree (readers : Readers) (roots : List Root) : Prop :=
  (artifacts roots).Pairwise fun a b =>
    ∀ reading ∈ readArtifact readers a, ∀ other ∈ readArtifact readers b, reading.Agrees other

/-- The order of the directories does not matter, and a disagreement stops the
extraction. -/
structure OrderFree (readers : Readers) (roots : List Root) : Prop where
  perm : ∀ other : List Root, other.Perm roots → SameOutcome (extract readers roots) (extract readers other)
  stops : ¬ Agree readers roots → ∃ message, extract readers roots = .error message

/-! ### What is left open -/

section
variable (contents : List Contents) (product : Guid)

/-- A licence that some order of the directories keeps. -/
def CanKeep (licence : Licence) : Prop :=
  Candidate Licence.counts (contents.filterMap fun directory => directory.licence product) licence

/-- In some order no licence names an application. -/
def Silent : Prop :=
  (∀ directory ∈ contents, directory.licence product = none) ∨
    ∃ licence, CanKeep contents product licence ∧ licence.applicationId = none

/-- A directory with the name of one that configures the product. -/
def Fallback (directory : Contents) : Prop :=
  directory ∈ contents ∧ ∃ configuring ∈ contents,
    (configuring.configuration product).isSome ∧ configuring.source.id = directory.source.id

/-- Whichever licence is kept, the lifetime and the application come out the same. -/
structure Settled : Prop where
  lifetime : ∀ licence other, CanKeep contents product licence → CanKeep contents product other →
    licence.cmidExpirationMinutes = other.cmidExpirationMinutes
  application : Silent contents product → ∃ application : Option Guid,
    (∀ directory, Fallback contents product directory → directory.application = application) ∧
    ∀ licence, CanKeep contents product licence → licence.applicationId ≠ none → licence.applicationId = application

end

/-- Where the directories can be merged, no two artifacts disagree and every product
is settled. -/
def Consistent (readers : Readers) (roots : List Root) : Prop :=
  ∀ contents, Extracts readers roots contents →
    Agree readers roots ∧ ∀ directory ∈ contents, ∀ configuration ∈ directory.configurations,
      Settled contents configuration.activationId

/-! ### Readings -/

section
variable {readers : Readers} {roots : List Root} {contents other : List Contents} {product : Guid}

theorem Reading.Agrees.symm {a b : Reading} (h : a.Agrees b) : b.Agrees a where
  configurations configuration hconfiguration other hother hkey :=
    (h.configurations other hother configuration hconfiguration hkey.symm).symm
  applications product hb ha application happlication other hother :=
    (h.applications product ha hb other hother application happlication).symm
  countedIds product hb ha hsome hother := (h.countedIds product ha hb hother hsome).symm

/-- Where no two artifacts disagree, neither do two readings. -/
theorem agrees_readings (hread : List.Forall₂ (fun root directory => readRoot readers root = some directory) roots contents)
    (h : Agree readers roots) {a b : Reading} (ha : a ∈ contents.flatMap Contents.readings)
    (hb : b ∈ contents.flatMap Contents.readings) (hne : a ≠ b) : a.Agrees b := by
  have hsymm : ∀ {a b : Artifact},
      (∀ reading ∈ readArtifact readers a, ∀ other ∈ readArtifact readers b, reading.Agrees other) →
        ∀ reading ∈ readArtifact readers b, ∀ other ∈ readArtifact readers a, reading.Agrees other :=
    fun hab reading hreading other hother => (hab other hother reading hreading).symm
  have hsorted : (roots.flatMap fun root => sortBy (fun artifact : Artifact => artifact.path.map codes)
      (root.artifacts.toOption.getD [])).Perm (artifacts roots) :=
    List.Perm.flatMap_left roots fun root _ => perm_sortBy _ _
  have hforall : List.Forall₂ (fun artifact reading => readArtifact readers artifact = some reading)
      (roots.flatMap fun root => sortBy (fun artifact : Artifact => artifact.path.map codes)
        (root.artifacts.toOption.getD [])) (contents.flatMap Contents.readings) := by
    refine List.rel_flatMap hread fun root directory hroot => ?_
    obtain ⟨-, artifacts, hartifacts, -, hreadings⟩ := Extraction.readRoot_eq_some_iff.mp hroot
    rw [hartifacts, Option.getD_some]
    exact mapM_eq_some_iff.mp hreadings
  have hpairwise := (hsorted.pairwise_iff hsymm).mpr h
  have hall : (contents.flatMap Contents.readings).Pairwise Reading.Agrees :=
    pairwise_of_forall₂ hforall (fun a b a' b' ha hb hab => hab a' ha b' hb) hpairwise
  have : Std.Symm Reading.Agrees := ⟨fun _ _ => Reading.Agrees.symm⟩
  exact hall.forall ha hb hne

/-! ### What a directory and all of them give -/

theorem exists_reading_of_configuration {directory : Contents} {configuration : PkeyConfiguration}
    (h : directory.configuration product = some configuration) : ∃ reading ∈ directory.readings,
      reading.configurations.find? (fun configuration => configuration.activationId = product) = some configuration := by
  rw [Contents.configuration, Contents.configurations, List.find?_flatMap] at h
  exact List.exists_of_findSome?_eq_some h

theorem exists_directory_of_find {entry : Text × PkeyConfiguration}
    (h : (configurations contents).find? (fun entry => entry.2.activationId = product) = some entry) :
    ∃ directory ∈ contents, directory.source.id = entry.1 ∧ directory.configuration product = some entry.2 := by
  rw [configurations, List.find?_flatMap] at h
  obtain ⟨directory, hdirectory, hfound⟩ := List.exists_of_findSome?_eq_some h
  rw [List.find?_map, Option.map_eq_some_iff] at hfound
  obtain ⟨configuration, hfound, rfl⟩ := hfound
  exact ⟨directory, hdirectory, rfl, hfound⟩

theorem exists_reading_of_licence {directory : Contents} {licence : Licence}
    (h : directory.licence product = some licence) : ∃ reading ∈ directory.readings,
      reading.licence = licence ∧ reading.licence.productSkuId = some product := by
  obtain ⟨hmem, -⟩ := candidate_of_preferred h
  obtain ⟨reading, hreading, hlicence⟩ := List.mem_filterMap.mp hmem
  rw [Reading.licenceOf] at hlicence
  split_ifs at hlicence with hsku
  exact ⟨reading, hreading, Option.some.inj hlicence, hsku⟩

theorem CanKeep.exists_directory {licence : Licence} (h : CanKeep contents product licence) :
    ∃ directory ∈ contents, directory.licence product = some licence := List.mem_filterMap.mp h.1

theorem CanKeep.exists_reading {licence : Licence} (h : CanKeep contents product licence) :
    ∃ reading ∈ contents.flatMap Contents.readings, reading.licence = licence ∧ reading.licence.productSkuId = some product := by
  obtain ⟨directory, hdirectory, hlicence⟩ := h.exists_directory
  obtain ⟨reading, hreading, hread⟩ := exists_reading_of_licence hlicence
  exact ⟨reading, List.mem_flatMap.mpr ⟨directory, hdirectory, hreading⟩, hread⟩

theorem CanKeep.of_perm {licence : Licence} (h : CanKeep contents product licence) (hperm : contents.Perm other) :
    CanKeep other product licence := Candidate.of_perm h (hperm.filterMap _)

theorem map_fst_keptLicence (contents : List Contents) (product : Guid) : (keptLicence contents product).map Prod.fst =
    preferred Licence.counts (contents.filterMap fun directory => directory.licence product) := by
  have hlicences : (contents.filterMap fun directory => directory.licence product) =
      (contents.filterMap fun directory =>
        (directory.licence product).map fun licence => (licence, directory.source.id)).map Prod.fst := by
    rw [List.map_filterMap]
    refine List.filterMap_congr fun directory _ => ?_
    cases directory.licence product <;> rfl
  rw [hlicences, preferred_map, keptLicence]

/-- The licence kept can be kept; there is none only where no directory has one. -/
theorem keptLicence_cases (contents : List Contents) (product : Guid) :
    (keptLicence contents product = none ∧ ∀ directory ∈ contents, directory.licence product = none) ∨
      ∃ licence id, keptLicence contents product = some (licence, id) ∧ CanKeep contents product licence := by
  have hkept := map_fst_keptLicence contents product
  cases h : keptLicence contents product with
  | none =>
    rw [h, Option.map_none, eq_comm, preferred_eq_none_iff, List.filterMap_eq_nil_iff] at hkept
    exact .inl ⟨rfl, hkept⟩
  | some entry =>
    rw [h, Option.map_some, eq_comm] at hkept
    exact .inr ⟨entry.1, entry.2, rfl, candidate_of_preferred hkept⟩

/-- The last directory of a name says which application the name has. -/
theorem exists_sourceApplication {directory : Contents} (h : directory ∈ contents) :
    ∃ last ∈ contents, last.source.id = directory.source.id ∧
      sourceApplication contents directory.source.id = last.application := by
  cases hfound : contents.reverse.find? fun other => other.source.id = directory.source.id with
  | none => simpa using List.find?_eq_none.mp hfound directory (List.mem_reverse.mpr h)
  | some last =>
    refine ⟨last, List.mem_reverse.mp (List.mem_of_find?_eq_some hfound), by simpa using List.find?_some hfound, ?_⟩
    rw [sourceApplication, hfound]
    rfl

/-! ### Another order -/

/-- No two readings disagree. -/
def ReadingsAgree (contents : List Contents) : Prop :=
  ∀ a ∈ contents.flatMap Contents.readings, ∀ b ∈ contents.flatMap Contents.readings, a ≠ b → a.Agrees b

theorem configuration_eq (hagree : ReadingsAgree contents) {a b : Contents} (ha : a ∈ contents) (hb : b ∈ contents)
    {configuration other : PkeyConfiguration} (hconfiguration : a.configuration product = some configuration)
    (hother : b.configuration product = some other) : configuration = other := by
  obtain ⟨reading, hreading, hfound⟩ := exists_reading_of_configuration hconfiguration
  obtain ⟨reading', hreading', hfound'⟩ := exists_reading_of_configuration hother
  by_cases hsame : reading = reading'
  · subst hsame
    exact Option.some.inj (hfound.symm.trans hfound')
  · have hkey : configuration.activationId = product := by simpa using List.find?_some hfound
    have hkey' : other.activationId = product := by simpa using List.find?_some hfound'
    exact (hagree _ (List.mem_flatMap.mpr ⟨a, ha, hreading⟩) _ (List.mem_flatMap.mpr ⟨b, hb, hreading'⟩) hsame).configurations
      configuration (List.mem_of_find?_eq_some hfound) other (List.mem_of_find?_eq_some hfound') (hkey.trans hkey'.symm)

/-- The licences that can be kept agree in what is given. -/
theorem CanKeep.agrees (hagree : ReadingsAgree contents) {licence later : Licence}
    (h : CanKeep contents product licence) (h' : CanKeep contents product later) :
    licence.countedIds = later.countedIds ∧
      ∀ application ∈ licence.applicationId, ∀ other ∈ later.applicationId, application = other := by
  obtain ⟨reading, hreading, rfl, hsku⟩ := h.exists_reading
  obtain ⟨reading', hreading', rfl, hsku'⟩ := h'.exists_reading
  by_cases hsame : reading = reading'
  · subst hsame
    exact ⟨rfl, fun application happlication other hother => Option.some.inj (happlication.symm.trans hother)⟩
  · have hagrees := hagree _ hreading _ hreading' hsame
    refine ⟨?_, hagrees.applications product hsku hsku'⟩
    by_cases hcounts : reading.licence.counts
    · have hcounts' : reading'.licence.counts := h'.2.elim id fun hnone => absurd hcounts (hnone _ h.1)
      exact hagrees.countedIds product hsku hsku' (by simpa [Licence.counts] using hcounts)
        (by simpa [Licence.counts] using hcounts')
    · have hnone : ∀ licence ∈ contents.filterMap fun directory => directory.licence product, ¬ licence.counts :=
        h.2.elim (fun hgood => absurd hgood hcounts) id
      have hempty : reading.licence.countedIds = [] := by simpa [Licence.counts] using hcounts
      have hempty' : reading'.licence.countedIds = [] := by simpa [Licence.counts] using hnone _ h'.1
      rw [hempty, hempty']

/-- The application a product comes out with. -/
def applicationOf (contents : List Contents) (product : Guid) (sourceId : Text) : Option Guid :=
  ((keptLicence contents product).bind fun entry => entry.1.applicationId).or (sourceApplication contents sourceId)

/-- In every order the fallback, or a licence that agrees with it, gives the one
application. -/
theorem applicationOf_eq {application : Option Guid}
    (hfallback : ∀ directory, Fallback contents product directory → directory.application = application)
    (hlicence : ∀ licence, CanKeep contents product licence → licence.applicationId ≠ none →
      licence.applicationId = application)
    (hperm : other.Perm contents) {directory : Contents} (hdirectory : directory ∈ contents)
    (hconfigures : (directory.configuration product).isSome) :
    applicationOf other product directory.source.id = application := by
  obtain ⟨last, hlast, hname, hsource⟩ := exists_sourceApplication (hperm.mem_iff.mpr hdirectory)
  have hlater : sourceApplication other directory.source.id = application := by
    rw [hsource]
    exact hfallback last ⟨hperm.mem_iff.mp hlast, directory, hdirectory, hconfigures, hname.symm⟩
  rw [applicationOf, hlater]
  rcases keptLicence_cases other product with ⟨hkept, -⟩ | ⟨licence, id, hkept, hcan⟩
  · rw [hkept, Option.bind_none, Option.none_or]
  · rw [hkept, Option.bind_some]
    cases hnamed : licence.applicationId with
    | none => rfl
    | some named =>
      rw [Option.some_or, ← hnamed]
      exact hlicence licence (hcan.of_perm hperm) (by simp [hnamed])

theorem applicationOf_perm (hagree : ReadingsAgree contents) (hsettled : Settled contents product)
    (hperm : other.Perm contents) {a b : Contents} (ha : a ∈ contents) (hb : b ∈ contents)
    (haconf : (a.configuration product).isSome) (hbconf : (b.configuration product).isSome) :
    applicationOf contents product a.source.id = applicationOf other product b.source.id := by
  by_cases hsilent : Silent contents product
  · obtain ⟨application, hfallback, hlicence⟩ := hsettled.application hsilent
    rw [applicationOf_eq hfallback hlicence (.refl contents) ha haconf, applicationOf_eq hfallback hlicence hperm hb hbconf]
  · -- whichever licence is kept names the application
    have hnamed : ∀ cs : List Contents, cs.Perm contents →
        ∃ licence application, CanKeep contents product licence ∧ application ∈ licence.applicationId ∧
          ∀ id, applicationOf cs product id = some application := by
      intro cs hcs
      rcases keptLicence_cases cs product with ⟨-, hnone⟩ | ⟨licence, id, hkept, hcan⟩
      · exact absurd (.inl fun directory hdirectory => hnone directory (hcs.mem_iff.mpr hdirectory)) hsilent
      · cases happlication : licence.applicationId with
        | none => exact absurd (.inr ⟨licence, hcan.of_perm hcs, happlication⟩) hsilent
        | some application =>
          refine ⟨licence, application, hcan.of_perm hcs, happlication, fun sourceId => ?_⟩
          rw [applicationOf, hkept, Option.bind_some, happlication, Option.some_or]
    obtain ⟨licence, application, hcan, happlication, hvalue⟩ := hnamed contents (.refl contents)
    obtain ⟨licence', application', hcan', happlication', hvalue'⟩ := hnamed other hperm
    rw [hvalue, hvalue', (hcan.agrees hagree hcan').2 application happlication application' happlication']

/-- Assembling in another order gives the same product but for its sources. -/
theorem assemble_perm (hagree : ReadingsAgree contents) (hperm : other.Perm contents) {configuration : PkeyConfiguration}
    (hsettled : Settled contents configuration.activationId) {a b : Contents} (ha : a ∈ contents) (hb : b ∈ contents)
    (haconf : a.configuration configuration.activationId = some configuration)
    (hbconf : b.configuration configuration.activationId = some configuration) :
    (assemble contents a.source.id configuration).unsourced = (assemble other b.source.id configuration).unsourced := by
  have happlication := applicationOf_perm hagree hsettled hperm ha hb (by simp [haconf]) (by simp [hbconf])
  have hblocks := sortBy_eq_of_perm KeyBlock.sortKey_injective (hperm.flatMap_right fun directory =>
    directory.ranges.filterMap (PkeyKeyRange.block configuration.activationId))
  have hkept : ((keptLicence contents configuration.activationId).map fun entry => entry.1.countedIds) =
      ((keptLicence other configuration.activationId).map fun entry => entry.1.countedIds) ∧
      ((keptLicence contents configuration.activationId).bind fun entry => entry.1.cmidExpirationMinutes) =
      ((keptLicence other configuration.activationId).bind fun entry => entry.1.cmidExpirationMinutes) := by
    rcases keptLicence_cases contents configuration.activationId with ⟨hkept, hnone⟩ | ⟨licence, id, hkept, hcan⟩
    · rcases keptLicence_cases other configuration.activationId with ⟨hkept', -⟩ | ⟨licence', id', hkept', hcan'⟩
      · rw [hkept, hkept']
        exact ⟨rfl, rfl⟩
      · obtain ⟨directory, hdirectory, hlicence⟩ := hcan'.exists_directory
        rw [hnone directory (hperm.mem_iff.mp hdirectory)] at hlicence
        cases hlicence
    · rcases keptLicence_cases other configuration.activationId with ⟨-, hnone⟩ | ⟨licence', id', hkept', hcan'⟩
      · obtain ⟨directory, hdirectory, hlicence⟩ := hcan.exists_directory
        rw [hnone directory (hperm.mem_iff.mpr hdirectory)] at hlicence
        cases hlicence
      · rw [hkept, hkept']
        exact ⟨congrArg some (hcan.agrees hagree (hcan'.of_perm hperm)).1,
          hsettled.lifetime licence licence' hcan (hcan'.of_perm hperm)⟩
  rw [applicationOf, applicationOf] at happlication
  simp only [assemble, newProduct, Product.unsourced, happlication, hblocks, hkept.1, hkept.2]

/-- The product of an id is the same in every order. -/
theorem productOf_perm (hagree : ReadingsAgree contents) (hperm : other.Perm contents)
    (hsettled : ∀ directory ∈ contents, ∀ configuration ∈ directory.configurations,
      Settled contents configuration.activationId) (product : Guid) :
    (productOf contents product).map Product.unsourced = (productOf other product).map Product.unsourced := by
  rw [productOf, productOf]
  have hconfigured := hperm.flatMap_right fun directory =>
    directory.configurations.map fun configuration => (directory.source.id, configuration)
  cases hfound : (configurations contents).find? fun entry => entry.2.activationId = product with
  | none =>
    have hnone : (configurations other).find? (fun entry => entry.2.activationId = product) = none :=
      List.find?_eq_none.mpr fun entry hentry => List.find?_eq_none.mp hfound entry (hconfigured.mem_iff.mp hentry)
    rw [hnone]
    rfl
  | some entry =>
    cases hfound' : (configurations other).find? fun entry => entry.2.activationId = product with
    | none =>
      exact absurd (List.find?_some hfound)
        (List.find?_eq_none.mp hfound' entry (hconfigured.mem_iff.mpr (List.mem_of_find?_eq_some hfound)))
    | some entry' =>
      obtain ⟨a, ha, hname, haconf⟩ := exists_directory_of_find hfound
      obtain ⟨b, hb, hname', hbconf⟩ := exists_directory_of_find hfound'
      have hb := hperm.mem_iff.mp hb
      have hsame := configuration_eq hagree ha hb haconf hbconf
      have hkey : entry.2.activationId = product := by simpa using List.find?_some hfound
      subst hkey
      rw [← hsame] at hbconf
      have hsettledHere := hsettled a ha entry.2 (List.mem_of_find?_eq_some haconf)
      simp only [Option.map_some, ← hname, ← hname', ← hsame]
      exact congrArg some (assemble_perm hagree hperm hsettledHere ha hb haconf hbconf)

/-! ### Lists of products -/

theorem Lists.mem_unsourced_iff {products : List Product} (h : Lists contents products) {row : Product} :
    (productOf contents product).map Product.unsourced = some row ↔
      row ∈ products.map Product.unsourced ∧ row.activationId = product := by
  rw [Option.map_eq_some_iff, List.mem_map]
  constructor
  · rintro ⟨found, hfound, rfl⟩
    have hid := activationId_of_productOf hfound
    exact ⟨⟨found, (h.mem_iff found).mpr (hid ▸ hfound), rfl⟩, hid⟩
  · rintro ⟨⟨found, hfound, rfl⟩, rfl⟩
    exact ⟨found, (h.mem_iff found).mp hfound, rfl⟩

/-- Lists are the same, but for the sources, just when every id has the same product. -/
theorem Lists.unsourced_eq_iff {products products' : List Product} (h : Lists contents products)
    (h' : Lists other products') : products.map Product.unsourced = products'.map Product.unsourced ↔
      ∀ product, (productOf contents product).map Product.unsourced = (productOf other product).map Product.unsourced := by
  constructor
  · intro hsame product
    refine Option.ext fun row => ?_
    rw [h.mem_unsourced_iff, h'.mem_unsourced_iff, hsame]
  · intro hsame
    have hincreasing : ∀ {products : List Product}, Increasing Product.sortKey products →
        Increasing Product.sortKey (products.map Product.unsourced) := by
      intro products hproducts
      rw [Increasing, List.map_map]
      exact hproducts
    refine (hincreasing h.increasing).ext (hincreasing h'.increasing) fun row => ?_
    have hrow := hsame row.activationId
    have hleft : (productOf contents row.activationId).map Product.unsourced = some row ↔ _ := h.mem_unsourced_iff
    have hright : (productOf other row.activationId).map Product.unsourced = some row ↔ _ := h'.mem_unsourced_iff
    rw [and_iff_left rfl] at hleft hright
    rw [← hleft, ← hright, hrow]

theorem Admitted.of_perm (h : Admitted contents) (hperm : other.Perm contents) : Admitted other where
  attributable directory hdirectory := h.attributable directory (hperm.mem_iff.mp hdirectory)
  groups a ha b hb := by
    have hconfigurations := hperm.flatMap_right fun directory =>
      directory.configurations.map fun configuration => (directory.source.id, configuration)
    exact h.groups a (hconfigurations.mem_iff.mp ha) b (hconfigurations.mem_iff.mp hb)

/-- The directories in another order are read in that order. -/
theorem Extracts.of_perm {roots' : List Root} (h : Extracts readers roots contents) (hperm : roots'.Perm roots) :
    ∃ other, other.Perm contents ∧ Extracts readers roots' other := by
  obtain ⟨other, hread, hother⟩ := List.perm_comp_forall₂ hperm h.1
  exact ⟨other, hother, hread, h.2.of_perm hother⟩

theorem readingsAgree_of_agree (h : Extracts readers roots contents) (hagree : Agree readers roots) :
    ReadingsAgree contents := fun _ ha _ hb hne => agrees_readings h.1 hagree ha hb hne

theorem Extracts.unique (h : Extracts readers roots contents) (h' : Extracts readers roots other) : contents = other := by
  have hfunctional : ∀ {roots : List Root} {contents other : List Contents},
      List.Forall₂ (fun root directory => readRoot readers root = some directory) roots contents →
      List.Forall₂ (fun root directory => readRoot readers root = some directory) roots other → contents = other := by
    intro roots contents other hread hread'
    induction hread generalizing other with
    | nil => exact (List.forall₂_nil_left_iff.mp hread').symm
    | cons hone _ ih =>
      obtain ⟨directory, rest, hone', hrest', rfl⟩ := List.forall₂_cons_left_iff.mp hread'
      rw [Option.some.inj (hone.symm.trans hone'), ih hrest']
  exact hfunctional h.1 h'.1

/-- What is settled comes out the same in every order. -/
theorem Consistent.orderFree (h : Consistent readers roots) : OrderFree readers roots where
  perm roots' hperm := by
    cases hextract : extract readers roots with
    | error message =>
      cases hextract' : extract readers roots' with
      | error message' => trivial
      | ok database' =>
        obtain ⟨contents, hextracts, -⟩ := extract_eq_ok hextract'
        obtain ⟨other, -, hother⟩ := hextracts.of_perm hperm.symm
        obtain ⟨database, hdatabase⟩ := exists_extract_eq_ok_iff.mpr ⟨other, hother⟩
        rw [hdatabase] at hextract
        cases hextract
    | ok database =>
      obtain ⟨contents, hextracts, hlists⟩ := extract_eq_ok hextract
      obtain ⟨other, hother, hextracts'⟩ := hextracts.of_perm hperm
      obtain ⟨database', hdatabase'⟩ := exists_extract_eq_ok_iff.mpr ⟨other, hextracts'⟩
      obtain ⟨other', hextracts'', hlists'⟩ := extract_eq_ok hdatabase'
      obtain rfl := hextracts'.unique hextracts''
      obtain ⟨hagree, hsettled⟩ := h contents hextracts
      rw [hdatabase']
      exact (hlists.unsourced_eq_iff hlists').mpr
        (productOf_perm (readingsAgree_of_agree hextracts hagree) hother hsettled)
  stops hdisagree := by
    cases hextract : extract readers roots with
    | error message => exact ⟨message, rfl⟩
    | ok database =>
      obtain ⟨contents, hextracts, -⟩ := extract_eq_ok hextract
      exact absurd (h contents hextracts).1 hdisagree

/-! ### Choosing an order -/

theorem exists_front {α : Type} {x : α} {xs : List α} (h : x ∈ xs) : ∃ rest, (x :: rest).Perm xs := by
  obtain ⟨before, after, rfl⟩ := List.append_of_mem h
  exact ⟨before ++ after, List.perm_middle.symm⟩

/-- The directories, with one of them first. -/
theorem exists_front_front {α : Type} {x y : α} {xs : List α} (hx : x ∈ xs) (hy : y ∈ xs) (hne : x ≠ y) :
    ∃ rest, (x :: y :: rest).Perm xs := by
  obtain ⟨others, hothers⟩ := exists_front hx
  obtain ⟨rest, hrest⟩ := exists_front ((List.mem_cons.mp (hothers.mem_iff.mpr hy)).resolve_left (Ne.symm hne))
  exact ⟨rest, (hrest.cons x).trans hothers⟩

theorem CanKeep.kept_first {directory : Contents} {rest : List Contents} {licence : Licence}
    (h : CanKeep contents product licence) (hperm : (directory :: rest).Perm contents)
    (hlicence : directory.licence product = some licence) :
    ∃ id, keptLicence (directory :: rest) product = some (licence, id) := by
  have hcandidate := h.of_perm hperm.symm
  have hkept := map_fst_keptLicence (directory :: rest) product
  rw [CanKeep, List.filterMap_cons, hlicence] at hcandidate
  rw [List.filterMap_cons, hlicence, Candidate.preferred_cons hcandidate, Option.map_eq_some_iff] at hkept
  obtain ⟨⟨_, id⟩, hkept, rfl⟩ := hkept
  exact ⟨id, hkept⟩

/-- A licence that can be kept is kept after one that cannot. -/
theorem CanKeep.kept_second {first second : Contents} {rest : List Contents} {licence : Licence}
    (h : CanKeep contents product licence) (hperm : (first :: second :: rest).Perm contents)
    (hfirst : ∀ other, first.licence product = some other → ¬ CanKeep contents product other)
    (hlicence : second.licence product = some licence) :
    ∃ id, keptLicence (first :: second :: rest) product = some (licence, id) := by
  have hcandidate := h.of_perm hperm.symm
  have hkept := map_fst_keptLicence (first :: second :: rest) product
  have hpreferred : preferred Licence.counts
      ((first :: second :: rest).filterMap fun directory => directory.licence product) = some licence := by
    rw [CanKeep] at hcandidate
    cases hother : first.licence product with
    | none =>
      rw [List.filterMap_cons, hother, List.filterMap_cons, hlicence] at hcandidate ⊢
      exact Candidate.preferred_cons hcandidate
    | some other =>
      have hmem : other ∈ (first :: second :: rest).filterMap fun directory => directory.licence product :=
        List.mem_filterMap.mpr ⟨first, List.mem_cons_self, hother⟩
      have hcannot : ¬ Candidate Licence.counts
          ((first :: second :: rest).filterMap fun directory => directory.licence product) other :=
        fun hcan => hfirst other hother (CanKeep.of_perm hcan hperm)
      have hempty : ¬ other.counts := fun hcounts => hcannot ⟨hmem, .inl hcounts⟩
      have hsome : licence.counts := hcandidate.2.elim id fun hnone => absurd ⟨hmem, .inr hnone⟩ hcannot
      rw [List.filterMap_cons, hother, List.filterMap_cons, hlicence]
      exact preferred_of_not_good hempty hsome _
  rw [hpreferred, Option.map_eq_some_iff] at hkept
  obtain ⟨⟨_, id⟩, hkept, rfl⟩ := hkept
  exact ⟨id, hkept⟩

theorem find_configurations_first {directory : Contents} {configuration : PkeyConfiguration}
    (h : directory.configuration product = some configuration) (rest : List Contents) :
    (configurations (directory :: rest)).find? (fun entry => entry.2.activationId = product) =
      some (directory.source.id, configuration) := by
  rw [Contents.configuration] at h
  rw [configurations, List.flatMap_cons, List.find?_append, List.find?_map]
  simp [h]

/-- The application and the lifetime of a product in every order. -/
theorem exists_observed
    (hconst : ∀ other : List Contents, other.Perm contents →
      (productOf contents product).map Product.unsourced = (productOf other product).map Product.unsourced)
    (hconfigured : ∃ directory ∈ contents, (directory.configuration product).isSome) :
    ∃ (application : Option Guid) (lifetime : Option UInt32), ∀ other : List Contents, other.Perm contents →
      ((keptLicence other product).bind fun entry => entry.1.cmidExpirationMinutes) = lifetime ∧
      ∀ entry, (configurations other).find? (fun entry => entry.2.activationId = product) = some entry →
        applicationOf other product entry.1 = application := by
  have hassembled : ∀ {other : List Contents} {entry : Text × PkeyConfiguration},
      (configurations other).find? (fun entry => entry.2.activationId = product) = some entry →
        ∃ row, (productOf other product).map Product.unsourced = some row ∧
          row.application = applicationOf other product entry.1 ∧
          row.cmidExpirationMinutes = (keptLicence other product).bind fun entry => entry.1.cmidExpirationMinutes := by
    intro other entry hentry
    have hkey : entry.2.activationId = product := by simpa using List.find?_some hentry
    refine ⟨(assemble other entry.1 entry.2).unsourced, by rw [productOf, hentry]; rfl, ?_, ?_⟩
    · rw [← hkey]
      rfl
    · rw [← hkey]
      rfl
  have hfind : ∀ other : List Contents, other.Perm contents →
      ∃ entry, (configurations other).find? (fun entry => entry.2.activationId = product) = some entry := by
    intro other hother
    obtain ⟨directory, hdirectory, hsome⟩ := hconfigured
    obtain ⟨configuration, hconfiguration⟩ := Option.isSome_iff_exists.mp hsome
    cases hfound : (configurations other).find? fun entry => entry.2.activationId = product with
    | some entry => exact ⟨entry, rfl⟩
    | none =>
      have hmem : (directory.source.id, configuration) ∈ configurations other :=
        List.mem_flatMap.mpr ⟨directory, hother.mem_iff.mpr hdirectory,
          List.mem_map_of_mem (List.mem_of_find?_eq_some hconfiguration)⟩
      exact absurd (List.find?_some hconfiguration) (List.find?_eq_none.mp hfound _ hmem)
  obtain ⟨entry, hentry⟩ := hfind contents (.refl contents)
  obtain ⟨row, hrow, happlication, hlifetime⟩ := hassembled hentry
  refine ⟨row.application, row.cmidExpirationMinutes, fun other hother => ?_⟩
  obtain ⟨entry', hentry'⟩ := hfind other hother
  obtain ⟨row', hrow', happlication', hlifetime'⟩ := hassembled hentry'
  have hsame : row = row' := Option.some.inj (hrow.symm.trans ((hconst other hother).trans hrow'))
  refine ⟨by rw [hsame, hlifetime'], fun found hfound => ?_⟩
  obtain rfl := Option.some.inj (hentry'.symm.trans hfound)
  rw [hsame, happlication']

/-- No two directories have one name. -/
def NamedApart (contents : List Contents) : Prop := (contents.map fun directory => directory.source.id).Nodup

theorem NamedApart.sourceApplication_eq (h : NamedApart contents) (hperm : other.Perm contents) {directory : Contents}
    (hdirectory : directory ∈ contents) : sourceApplication other directory.source.id = directory.application := by
  obtain ⟨last, hlast, hname, hsource⟩ := exists_sourceApplication (hperm.mem_iff.mpr hdirectory)
  rw [hsource, List.inj_on_of_nodup_map h (hperm.mem_iff.mp hlast) hdirectory hname]

/-- A licence's application is its directory's. -/
theorem application_of_licence {directory : Contents} (h : directory.Attributable) {licence : Licence}
    (hlicence : directory.licence product = some licence) (hnamed : licence.applicationId ≠ none) :
    directory.application = licence.applicationId := by
  obtain ⟨reading, hreading, rfl, hsku⟩ := exists_reading_of_licence hlicence
  obtain ⟨application, happlication⟩ := Option.ne_none_iff_exists'.mp hnamed
  have hmem : application ∈ directory.applications := by
    refine List.mem_filterMap.mpr ⟨reading, hreading, ?_⟩
    rw [Reading.application, hsku, Option.bind_some, happlication]
  cases hhead : directory.applications.head? with
  | none =>
    rw [List.head?_eq_none_iff.mp hhead] at hmem
    cases hmem
  | some first => rw [Contents.application, hhead, happlication, h first (List.mem_of_head? hhead) application hmem]

/-- What comes out the same in every order is settled. -/
theorem settled_of_const (hnames : NamedApart contents) (hattributable : ∀ directory ∈ contents, directory.Attributable)
    (hconst : ∀ other : List Contents, other.Perm contents →
      (productOf contents product).map Product.unsourced = (productOf other product).map Product.unsourced)
    (hconfigured : ∃ directory ∈ contents, (directory.configuration product).isSome) : Settled contents product := by
  obtain ⟨application, lifetime, hobserved⟩ := exists_observed hconst hconfigured
  have hlifetime : ∀ licence, CanKeep contents product licence → licence.cmidExpirationMinutes = lifetime := by
    intro licence hcan
    obtain ⟨directory, hdirectory, hlicence⟩ := hcan.exists_directory
    obtain ⟨rest, hperm⟩ := exists_front hdirectory
    obtain ⟨id, hkept⟩ := hcan.kept_first hperm hlicence
    have hseen := (hobserved _ hperm).1
    rwa [hkept, Option.bind_some] at hseen
  refine ⟨fun licence later hcan hcan' => (hlifetime licence hcan).trans (hlifetime later hcan').symm, fun hsilent => ?_⟩
  refine ⟨application, ?_, ?_⟩
  · rintro directory ⟨hdirectory, configuring, hconfiguring, hsome, hname⟩
    obtain rfl := List.inj_on_of_nodup_map hnames hconfiguring hdirectory hname
    obtain ⟨configuration, hconfiguration⟩ := Option.isSome_iff_exists.mp hsome
    -- first in the order, the directory gives the configuration
    have hseen : ∀ {rest : List Contents}, (configuring :: rest).Perm contents →
        ((keptLicence (configuring :: rest) product).bind fun entry => entry.1.applicationId).or configuring.application =
          application := by
      intro rest hperm
      have hfirst := (hobserved _ hperm).2 _ (find_configurations_first hconfiguration rest)
      rwa [applicationOf, hnames.sourceApplication_eq hperm hdirectory] at hfirst
    by_cases hown : ∃ licence, configuring.licence product = some licence ∧ CanKeep contents product licence
    · obtain ⟨licence, hlicence, hcan⟩ := hown
      obtain ⟨rest, hperm⟩ := exists_front hdirectory
      obtain ⟨id, hkept⟩ := hcan.kept_first hperm hlicence
      have hfirst := hseen hperm
      rw [hkept, Option.bind_some] at hfirst
      by_cases hnamed : licence.applicationId = none
      · rwa [hnamed, Option.none_or] at hfirst
      · have hsame := application_of_licence (hattributable _ hdirectory) hlicence hnamed
        rwa [← hsame, Option.or_self] at hfirst
    · push Not at hown
      rcases hsilent with hnone | ⟨licence, hcan, hunnamed⟩
      · obtain ⟨rest, hperm⟩ := exists_front hdirectory
        have hfirst := hseen hperm
        rcases keptLicence_cases (configuring :: rest) product with ⟨hkept, -⟩ | ⟨licence, id, -, hcan⟩
        · rwa [hkept, Option.bind_none, Option.none_or] at hfirst
        · obtain ⟨holder, hholder, hlicence⟩ := hcan.exists_directory
          rw [hnone holder (hperm.mem_iff.mp hholder)] at hlicence
          cases hlicence
      · obtain ⟨holder, hholder, hlicence⟩ := hcan.exists_directory
        have hne : configuring ≠ holder := fun hsame => hown licence (hsame ▸ hlicence) hcan
        obtain ⟨rest, hperm⟩ := exists_front_front hdirectory hholder hne
        obtain ⟨id, hkept⟩ := hcan.kept_second hperm hown hlicence
        have hfirst := hseen hperm
        rwa [hkept, Option.bind_some, hunnamed, Option.none_or] at hfirst
  · intro licence hcan hnamed
    obtain ⟨directory, hdirectory, hlicence⟩ := hcan.exists_directory
    obtain ⟨rest, hperm⟩ := exists_front hdirectory
    obtain ⟨id, hkept⟩ := hcan.kept_first hperm hlicence
    obtain ⟨named, hsome⟩ := Option.ne_none_iff_exists'.mp hnamed
    cases hfound : (configurations (directory :: rest)).find? fun entry => entry.2.activationId = product with
    | some entry =>
      have hseen := (hobserved _ hperm).2 entry hfound
      rwa [applicationOf, hkept, Option.bind_some, hsome, Option.some_or, ← hsome] at hseen
    | none =>
      obtain ⟨configuring, hconfiguring, hconfigures⟩ := hconfigured
      obtain ⟨configuration, hconfiguration⟩ := Option.isSome_iff_exists.mp hconfigures
      have hmem : (configuring.source.id, configuration) ∈ configurations (directory :: rest) :=
        List.mem_flatMap.mpr ⟨configuring, hperm.mem_iff.mpr hconfiguring,
          List.mem_map_of_mem (List.mem_of_find?_eq_some hconfiguration)⟩
      exact absurd (List.find?_some hconfiguration) (List.find?_eq_none.mp hfound _ hmem)

theorem fileName_of_readSource {root : Root} {source : Source} (h : readSource root = .ok source) :
    root.path.fileName = some source.id := by
  rw [readSource] at h
  cases hname : root.path.fileName with
  | none =>
    rw [hname] at h
    cases h
  | some name =>
    rw [hname] at h
    cases htext : root.sourceText with
    | error message =>
      rw [htext] at h
      cases h
    | ok text =>
      rw [htext] at h
      cases hfirst : (lines text)[0]? with
      | none =>
        simp only [orContext, Result.context, Except.mapError, hfirst, bind, Except.bind] at h
        cases h
      | some description =>
        cases hsecond : (lines text)[1]? with
        | none =>
          simp only [orContext, Result.context, Except.mapError, hfirst, hsecond, bind, Except.bind] at h
          cases h
        | some origin =>
          simp only [orContext, Result.context, Except.mapError, hfirst, hsecond, bind, Except.bind] at h
          cases h
          rfl

theorem namedApart_of_roots (h : Extracts readers roots contents)
    (hnames : (roots.map fun root => root.path.fileName).Nodup) : NamedApart contents := by
  have hsame : roots.map (fun root => root.path.fileName) = contents.map fun directory => some directory.source.id := by
    obtain ⟨hread, -⟩ := h
    induction hread with
    | nil => rfl
    | @cons root directory roots contents hone _ ih =>
      have hsource := (Extraction.readRoot_eq_some_iff.mp hone).1
      have hname : root.path.fileName = some directory.source.id := by
        cases hread : readSource root with
        | error message =>
          rw [hread] at hsource
          cases hsource
        | ok source =>
          rw [hread] at hsource
          exact Option.some.inj hsource ▸ fileName_of_readSource hread
      rw [List.map_cons, List.map_cons, hname, ih (List.nodup_cons.mp hnames).2]
  rw [hsame] at hnames
  rw [NamedApart]
  exact List.Nodup.of_map some (by rwa [List.map_map])

/-- In the other direction, where no two directories have one name. -/
theorem OrderFree.consistent (h : OrderFree readers roots) (hnames : (roots.map fun root => root.path.fileName).Nodup) :
    Consistent readers roots := by
  intro contents hextracts
  obtain ⟨database, hdatabase⟩ := exists_extract_eq_ok_iff.mpr ⟨contents, hextracts⟩
  have hagree : Agree readers roots := by
    by_contra hdisagree
    obtain ⟨message, hmessage⟩ := h.stops hdisagree
    rw [hdatabase] at hmessage
    cases hmessage
  obtain ⟨contents', hextracts', hlists⟩ := extract_eq_ok hdatabase
  obtain rfl := hextracts.unique hextracts'
  refine ⟨hagree, fun directory hdirectory configuration hconfiguration => ?_⟩
  refine settled_of_const (namedApart_of_roots hextracts hnames) hextracts.2.attributable ?_ ?_
  · intro other hother
    obtain ⟨roots', hread, hperm⟩ := List.perm_comp_forall₂ hother hextracts.1.flip
    have hextracts'' : Extracts readers roots' other := ⟨hread.flip, hextracts.2.of_perm hother⟩
    obtain ⟨database', hdatabase'⟩ := exists_extract_eq_ok_iff.mpr ⟨other, hextracts''⟩
    obtain ⟨other', hextracts''', hlists'⟩ := extract_eq_ok hdatabase'
    obtain rfl := hextracts''.unique hextracts'''
    have hsame := h.perm roots' hperm
    rw [hdatabase, hdatabase'] at hsame
    exact (hlists.unsourced_eq_iff hlists').mp hsame _
  · exact ⟨directory, hdirectory, List.find?_isSome.mpr ⟨configuration, hconfiguration, by simp⟩⟩

end

/-- The order is free, and no disagreement is passed over, if the directories are
consistent; and, where no two of them have one name, only if they are. -/
theorem orderFree_iff_consistent (readers : Readers) (roots : List Root) :
    (Consistent readers roots → OrderFree readers roots) ∧
      ((roots.map fun root => root.path.fileName).Nodup → OrderFree readers roots → Consistent readers roots) :=
  ⟨Consistent.orderFree, fun hnames hfree => hfree.consistent hnames⟩

/-! ### Two images -/

/-- An artifact whose text is the edition of the one key it configures. -/
def editionReaders : Readers where
  pkeyconfigPayload text := .ok (some text)
  parsePkeyconfig text := .ok ([⟨Vector.replicate 16 1, 4919, text, [], []⟩], [])
  parseLicence _ := .ok ⟨none, none, [], none⟩

/-- A directory with one artifact. -/
def image (name edition : Text) : Root := ⟨[name], .ok ['d', '\n', 'o', '\n'], .ok [⟨[name, ['x']], edition⟩]⟩

def editions (result : Result Database) : Option (List Text) :=
  result.toOption.map fun database => database.products.map Product.editionId

/-- What is read of it. -/
def imageContents (name edition : Text) : Contents :=
  ⟨⟨name, ['d'], ['o'], [], none⟩, [⟨[⟨Vector.replicate 16 1, 4919, edition, [], []⟩], [], ⟨none, none, [], none⟩⟩]⟩

theorem SameOutcome.editions {result other : Result Database} (h : SameOutcome result other) :
    Dbgen.editions result = Dbgen.editions other := by
  cases result with
  | error message =>
    cases other with
    | error message' => rfl
    | ok database => exact h.elim
  | ok database =>
    cases other with
    | error message => exact h.elim
    | ok database' =>
      have hsame := congrArg (List.map Product.editionId) h
      rw [List.map_map, List.map_map] at hsame
      exact congrArg some hsame

/-- Two images of one edition are consistent. -/
theorem orderFree_iff_consistent_images : OrderFree editionReaders [image ['a'] ['E'], image ['b'] ['E']] := by
  refine (orderFree_iff_consistent editionReaders [image ['a'] ['E'], image ['b'] ['E']]).1 fun contents hextracts => ?_
  have hcontents : contents = [imageContents ['a'] ['E'], imageContents ['b'] ['E']] := by
    refine hextracts.unique ⟨.cons rfl (.cons rfl .nil), ⟨?_, ?_⟩⟩
    · simp [Contents.Attributable, Contents.applications, imageContents, Reading.application]
    · simp [GroupsAgree, configurations, Contents.configurations, imageContents]
  subst hcontents
  constructor
  · refine .cons (fun artifact hartifact reading hreading other hother => ?_)
      (.cons (fun artifact hartifact => absurd hartifact List.not_mem_nil) .nil)
    obtain rfl := List.mem_singleton.mp hartifact
    obtain rfl := Option.some.inj hreading
    obtain rfl := Option.some.inj hother
    exact ⟨by simp, by simp, by simp⟩
  · intro directory _ configuration _
    have hnone : ∀ directory ∈ [imageContents ['a'] ['E'], imageContents ['b'] ['E']],
        directory.licence configuration.activationId = none := by
      simp [imageContents, Contents.licence, Contents.licences, Reading.licenceOf]
    have hcannot : ∀ licence,
        ¬ CanKeep [imageContents ['a'] ['E'], imageContents ['b'] ['E']] configuration.activationId licence := by
      intro licence hcan
      obtain ⟨holder, hholder, hlicence⟩ := hcan.exists_directory
      rw [hnone holder hholder] at hlicence
      cases hlicence
    refine ⟨fun licence _ hcan => absurd hcan (hcannot licence), fun _ => ⟨none, ?_, ?_⟩⟩
    · rintro fallback ⟨hfallback, -⟩
      rcases List.mem_pair.mp hfallback with rfl | rfl <;> rfl
    · exact fun licence hcan => absurd hcan (hcannot licence)

/-- A stale edition decides: the one of the image read first. -/
theorem stale_edition_kept :
    ¬ OrderFree editionReaders [image ['a'] ['E'], image ['b'] ['F']] ∧
      editions (extract editionReaders [image ['a'] ['E'], image ['b'] ['F']]) = some [['E']] ∧
      editions (extract editionReaders [image ['b'] ['F'], image ['a'] ['E']]) = some [['F']] := by
  have hfirst : editions (extract editionReaders [image ['a'] ['E'], image ['b'] ['F']]) = some [['E']] := by decide +kernel
  have hsecond : editions (extract editionReaders [image ['b'] ['F'], image ['a'] ['E']]) = some [['F']] := by decide +kernel
  refine ⟨fun h => ?_, hfirst, hsecond⟩
  have hsame := (h.perm [image ['b'] ['F'], image ['a'] ['E']] (.swap _ _ _)).editions
  rw [hfirst, hsecond] at hsame
  exact absurd hsame (by decide)

end Kmsrs.Dbgen
