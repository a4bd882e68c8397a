import Kmsrs.Dbgen.Contents

/-! The extraction succeeds just when every directory can be read, none names two
applications and no key has two groups; its products are then the ones the directories
give. What it holds on the way is a function of what was read. -/

namespace Kmsrs.Dbgen

open Kmsrs.Kms Kmsrs.Sorted Kmsrs.Preferred

/-! ### One directory after the other -/

namespace Extraction

def addConfiguration (sourceId : Text) (extraction : Extraction) (configuration : PkeyConfiguration) : Extraction :=
  match extraction.products.find? fun product => product.activationId = configuration.activationId with
  | some _ => extraction
  | none => { extraction with products := extraction.products ++ [newProduct sourceId configuration] }

def addLicence (sourceId : Text) (extraction : Extraction) (licence : Licence) : Extraction :=
  match licence.productSkuId with
  | none => extraction
  | some activation =>
    let licences := upsert Db.rank activation (keepLicence licence sourceId) extraction.licences
    match licence.applicationId with
    | none => { extraction with licences }
    | some application =>
      let applications := upsert Db.rank application
        (fun slot => slot.getD (applicationName application, sourceId)) extraction.applications
      { extraction with licences, applications }

def addReading (sourceId : Text) (extraction : Extraction) (reading : Reading) : Extraction :=
  let ranged := reading.ranges.foldl absorbRange extraction
  addLicence sourceId (reading.configurations.foldl (addConfiguration sourceId) ranged) reading.licence

def addContents (extraction : Extraction) (contents : Contents) : Extraction :=
  let added := contents.readings.foldl (addReading contents.source.id) extraction
  { added with sources := added.sources ++ [contents.toSource] }

/-- What an extraction holds of the configurations, ranges and licences read. -/
structure Holds (configurations : List (Text × PkeyConfiguration)) (ranges : List PkeyKeyRange)
    (licences : List (Text × Licence)) (extraction : Extraction) : Prop where
  nodup : (extraction.products.map Product.activationId).Nodup
  products : ∀ product, (extraction.products.find? fun row => row.activationId = product) =
    (configurations.find? fun entry => entry.2.activationId = product).map fun entry => newProduct entry.1 entry.2
  ranges_increasing : Increasing (fun entry => Db.rank entry.1) extraction.ranges
  ranges : ∀ product, (valueOf extraction.ranges product).getD [] = ranges.filterMap (PkeyKeyRange.block product)
  licences_increasing : Increasing (fun entry => Db.rank entry.1) extraction.licences
  licences : ∀ product, valueOf extraction.licences product = preferred (fun entry => entry.1.counts)
    ((licences.filter fun entry => entry.2.productSkuId = some product).map Prod.swap)

end Extraction

/-! ### Groups -/

theorem groupsAgree_nil : GroupsAgree [] := by simp [GroupsAgree]

theorem GroupsAgree.left {before after : List (Text × PkeyConfiguration)} (h : GroupsAgree (before ++ after)) :
    GroupsAgree before :=
  fun a ha b hb => h a (List.mem_append_left _ ha) b (List.mem_append_left _ hb)

theorem groupsAgree_concat_iff {before : List (Text × PkeyConfiguration)} {entry : Text × PkeyConfiguration} :
    GroupsAgree (before ++ [entry]) ↔ GroupsAgree before ∧
      ∀ a ∈ before, a.2.activationId = entry.2.activationId → a.2.groupId = entry.2.groupId := by
  constructor
  · intro h
    exact ⟨h.left, fun a ha => h a (List.mem_append_left _ ha) entry (by simp)⟩
  · rintro ⟨hbefore, hentry⟩ a ha b hb hkey
    rw [List.mem_append, List.mem_singleton] at ha hb
    rcases ha with ha | rfl <;> rcases hb with hb | rfl
    · exact hbefore a ha b hb hkey
    · exact hentry a ha hkey
    · exact (hentry b hb hkey.symm).symm
    · rfl

namespace Extraction

variable {readers : Readers} {artifact : Artifact} {sourceId : Text} {extraction result : Extraction}
  {configurations : List (Text × PkeyConfiguration)} {ranges : List PkeyKeyRange} {licences : List (Text × Licence)}

/-! ### What is held -/

theorem holds_nil : Holds [] [] [] ⟨[], [], [], [], []⟩ where
  nodup := List.nodup_nil
  products _ := rfl
  ranges_increasing := List.Pairwise.nil
  ranges _ := rfl
  licences_increasing := List.Pairwise.nil
  licences _ := rfl

theorem Holds.absorbRange (h : Holds configurations ranges licences extraction) (range : PkeyKeyRange) :
    Holds configurations (ranges ++ [range]) licences (extraction.absorbRange range) := by
  rw [Extraction.absorbRange]
  split_ifs with hvalid
  · refine { h with ranges_increasing := increasing_upsert Db.rank_injective _ _ h.ranges_increasing, ranges := ?_ }
    intro product
    rw [valueOf_upsert _ _ h.ranges_increasing, List.filterMap_append, ← h.ranges product]
    by_cases hkey : product = range.activationId
    · subst hkey
      simp [PkeyKeyRange.block, hvalid]
    · simp [PkeyKeyRange.block, hkey, Ne.symm hkey]
  · refine { h with ranges := ?_ }
    intro product
    rw [List.filterMap_append, ← h.ranges product]
    simp [PkeyKeyRange.block, hvalid]

theorem Holds.addConfiguration (h : Holds configurations ranges licences extraction) (sourceId : Text)
    (configuration : PkeyConfiguration) :
    Holds (configurations ++ [(sourceId, configuration)]) ranges licences
      (addConfiguration sourceId extraction configuration) := by
  have hseen := h.products configuration.activationId
  rw [Extraction.addConfiguration]
  cases hfound : extraction.products.find? fun product => product.activationId = configuration.activationId with
  | some existing =>
    refine { h with products := ?_ }
    intro product
    rw [h.products, List.find?_append]
    cases hearlier : configurations.find? fun entry => entry.2.activationId = product with
    | some entry => rfl
    | none =>
      have hother : configuration.activationId ≠ product := by
        rintro rfl
        rw [hfound, hearlier] at hseen
        exact Option.some_ne_none _ hseen
      simp [hother]
  | none =>
    have hnew : ∀ row ∈ extraction.products, row.activationId ≠ configuration.activationId := by
      simpa using List.find?_eq_none.mp hfound
    refine { h with nodup := ?_, products := ?_ }
    · rw [List.map_append, List.nodup_append]
      refine ⟨h.nodup, by simp, ?_⟩
      intro id hid id' hid'
      obtain ⟨row, hrow, rfl⟩ := List.mem_map.mp hid
      rw [List.map_singleton, List.mem_singleton] at hid'
      exact hid' ▸ hnew row hrow
    · intro product
      rw [List.find?_append, h.products, List.find?_append]
      cases hearlier : configurations.find? fun entry => entry.2.activationId = product with
      | some entry => rfl
      | none =>
        by_cases hkey : configuration.activationId = product
        · simp [newProduct, hkey]
        · simp [newProduct, hkey]

theorem Holds.addLicence (h : Holds configurations ranges licences extraction) (sourceId : Text) (licence : Licence) :
    Holds configurations ranges (licences ++ [(sourceId, licence)]) (addLicence sourceId extraction licence) := by
  rw [Extraction.addLicence]
  cases hsku : licence.productSkuId with
  | none =>
    refine { h with licences := ?_ }
    intro product
    rw [h.licences, List.filter_append]
    simp [hsku]
  | some activation =>
    have hkept : ∀ product,
        valueOf (upsert Db.rank activation (keepLicence licence sourceId) extraction.licences) product =
          preferred (fun entry => entry.1.counts)
            (((licences ++ [(sourceId, licence)]).filter fun entry => entry.2.productSkuId = some product).map Prod.swap) := by
      intro product
      rw [valueOf_upsert _ _ h.licences_increasing, List.filter_append, List.map_append]
      split_ifs with hkey
      · subst hkey
        have hlast : [(sourceId, licence)].filter (fun entry => entry.2.productSkuId = some product) =
            [(sourceId, licence)] := by simp [hsku]
        rw [hlast, List.map_singleton, preferred_concat, h.licences]
        cases preferred (fun entry : Licence × Text => entry.1.counts)
            ((licences.filter fun entry => entry.2.productSkuId = some product).map Prod.swap) with
        | none => rfl
        | some slot => simp [keepLicence, keep, Licence.counts]
      · have hlast : [(sourceId, licence)].filter (fun entry => entry.2.productSkuId = some product) = [] := by
          simp [hsku, Ne.symm hkey]
        rw [hlast, List.map_nil, List.append_nil, h.licences]
    have hincreasing := increasing_upsert Db.rank_injective activation (keepLicence licence sourceId) h.licences_increasing
    cases licence.applicationId with
    | none => exact { h with licences_increasing := hincreasing, licences := hkept }
    | some application => exact { h with licences_increasing := hincreasing, licences := hkept }

/-! ### What the directories give, one after the other -/

theorem Holds.foldRanges (h : Holds configurations ranges licences extraction) (later : List PkeyKeyRange) :
    Holds configurations (ranges ++ later) licences (later.foldl Extraction.absorbRange extraction) := by
  induction later generalizing ranges extraction with
  | nil => simpa using h
  | cons range later ih => simpa using ih (h.absorbRange range)

theorem Holds.foldConfigurations (h : Holds configurations ranges licences extraction) (sourceId : Text)
    (later : List PkeyConfiguration) :
    Holds (configurations ++ later.map fun configuration => (sourceId, configuration)) ranges licences
      (later.foldl (Extraction.addConfiguration sourceId) extraction) := by
  induction later generalizing configurations extraction with
  | nil => simpa using h
  | cons configuration later ih => simpa using ih (h.addConfiguration sourceId configuration)

theorem Holds.addReading (h : Holds configurations ranges licences extraction) (sourceId : Text) (reading : Reading) :
    Holds (configurations ++ reading.configurations.map fun configuration => (sourceId, configuration))
      (ranges ++ reading.ranges) (licences ++ [(sourceId, reading.licence)]) (addReading sourceId extraction reading) :=
  ((h.foldRanges reading.ranges).foldConfigurations sourceId reading.configurations).addLicence sourceId reading.licence

theorem absorbConfiguration_eq_ok_iff (h : Holds configurations ranges licences extraction)
    (hagree : GroupsAgree configurations) (artifact : Artifact) (sourceId : Text) (configuration : PkeyConfiguration)
    (result : Extraction) :
    absorbConfiguration artifact sourceId extraction configuration = .ok result ↔
      GroupsAgree (configurations ++ [(sourceId, configuration)]) ∧
        result = addConfiguration sourceId extraction configuration := by
  have hseen := h.products configuration.activationId
  rw [absorbConfiguration, addConfiguration, groupsAgree_concat_iff, and_iff_right hagree]
  cases hfound : extraction.products.find? fun product => product.activationId = configuration.activationId with
  | none =>
    rw [hfound, eq_comm, Option.map_eq_none_iff, List.find?_eq_none] at hseen
    have hnew : ∀ a ∈ configurations, a.2.activationId = configuration.activationId → a.2.groupId = configuration.groupId :=
      fun a ha hkey => absurd hkey (by simpa using hseen a ha)
    rw [and_iff_right hnew, Except.ok.injEq]
    exact eq_comm
  | some existing =>
    rw [hfound, eq_comm, Option.map_eq_some_iff] at hseen
    obtain ⟨first, hfirst, rfl⟩ := hseen
    have hmem := List.mem_of_find?_eq_some hfirst
    have hkey : first.2.activationId = configuration.activationId := by simpa using List.find?_some hfirst
    have hgroups : (∀ a ∈ configurations, a.2.activationId = configuration.activationId →
        a.2.groupId = configuration.groupId) ↔ first.2.groupId = configuration.groupId := by
      constructor
      · exact fun hall => hall first hmem hkey
      · exact fun hgroup a ha hsame => (hagree a ha first hmem (hsame.trans hkey.symm)).trans hgroup
    rw [hgroups]
    by_cases hgroup : first.2.groupId = configuration.groupId
    · simp [newProduct, hgroup, eq_comm]
    · simp [newProduct, hgroup]

theorem foldConfigurations_eq_ok_iff (h : Holds configurations ranges licences extraction)
    (hagree : GroupsAgree configurations) (artifact : Artifact) (sourceId : Text) (later : List PkeyConfiguration)
    (result : Extraction) :
    later.foldlM (absorbConfiguration artifact sourceId) extraction = .ok result ↔
      GroupsAgree (configurations ++ later.map fun configuration => (sourceId, configuration)) ∧
        result = later.foldl (addConfiguration sourceId) extraction := by
  induction later generalizing configurations extraction with
  | nil =>
    rw [List.map_nil, List.append_nil, and_iff_right hagree, List.foldlM_nil]
    exact ⟨fun hok => (Except.ok.inj hok).symm, fun hok => congrArg Except.ok hok.symm⟩
  | cons configuration later ih =>
    have hstep := absorbConfiguration_eq_ok_iff h hagree artifact sourceId configuration
    rw [List.foldlM_cons, List.map_cons, ← List.singleton_append, ← List.append_assoc, List.foldl_cons]
    constructor
    · intro hok
      cases hfirst : absorbConfiguration artifact sourceId extraction configuration with
      | error message =>
        rw [hfirst] at hok
        cases hok
      | ok next =>
        rw [hfirst] at hok
        obtain ⟨hone, rfl⟩ := (hstep next).mp hfirst
        exact (ih (h.addConfiguration sourceId configuration) hone).mp hok
    · rintro ⟨hall, hresult⟩
      rw [(hstep _).mpr ⟨hall.left, rfl⟩]
      exact (ih (h.addConfiguration sourceId configuration) hall.left).mpr ⟨hall, hresult⟩

theorem context_eq_ok_iff {α : Type} {value : Result α} {context : Text} {a : α} :
    Result.context value context = .ok a ↔ value.toOption = some a := by
  cases value <;> simp [Result.context, Except.mapError, Except.toOption]

/-- The applications of a source, with an artifact's. -/
def addApplication (applications : List Guid) (reading : Reading) : List Guid :=
  match reading.application with
  | none => applications
  | some application => applications.insert application

theorem absorbLicence_eq_ok_iff (applications : List Guid) (extraction : Extraction) (result : List Guid × Extraction) :
    absorbLicence readers artifact sourceId applications extraction = .ok result ↔
      ∃ licence, (readers.parseLicence artifact.text).toOption = some licence ∧
        result = (addApplication applications ⟨[], [], licence⟩, addLicence sourceId extraction licence) := by
  rw [absorbLicence]
  cases hread : Result.context (readers.parseLicence artifact.text) ("in ".toList ++ artifact.name) with
  | error message =>
    have hnone : ∀ licence, (readers.parseLicence artifact.text).toOption ≠ some licence := by
      intro licence h
      rw [context_eq_ok_iff.mpr h] at hread
      cases hread
    constructor
    · intro h
      cases h
    · rintro ⟨licence, h, -⟩
      exact absurd h (hnone licence)
  | ok licence =>
    rw [context_eq_ok_iff.mp hread]
    simp only [Option.some.injEq, exists_eq_left']
    cases hsku : licence.productSkuId with
    | none => simp [bind, Except.bind, pure, Except.pure, hsku, addApplication, Reading.application, addLicence, eq_comm]
    | some activation =>
      cases happlication : licence.applicationId with
      | none =>
        simp [bind, Except.bind, pure, Except.pure, hsku, happlication, addApplication, Reading.application, addLicence,
          eq_comm]
      | some application =>
        simp [bind, Except.bind, pure, Except.pure, hsku, happlication, addApplication, Reading.application, addLicence,
          eq_comm]

theorem absorbPkeyconfig_eq_ok_iff (h : Holds configurations ranges licences extraction)
    (hagree : GroupsAgree configurations) :
    absorbPkeyconfig readers artifact sourceId extraction = .ok result ↔
      ∃ found, readPkeyconfig readers artifact = some found ∧
        GroupsAgree (configurations ++ found.1.map fun configuration => (sourceId, configuration)) ∧
        result = found.1.foldl (addConfiguration sourceId) (found.2.foldl absorbRange extraction) := by
  rw [absorbPkeyconfig, readPkeyconfig]
  cases hpayload : readers.pkeyconfigPayload artifact.text with
  | error message => simp [Result.context, Except.mapError, Except.toOption, bind, Except.bind]
  | ok payload =>
    cases payload with
    | none =>
      simp [Result.context, Except.mapError, Except.toOption, bind, Except.bind, pure, Except.pure, hagree, eq_comm]
    | some payload =>
      cases hparsed : readers.parsePkeyconfig payload with
      | error message => simp [Result.context, Except.mapError, Except.toOption, bind, Except.bind, hparsed]
      | ok found =>
        obtain ⟨found, foundRanges⟩ := found
        have hfold := foldConfigurations_eq_ok_iff (h.foldRanges foundRanges) hagree artifact sourceId found result
        simpa [Result.context, Except.mapError, Except.toOption, bind, Except.bind, hparsed] using hfold

theorem readArtifact_eq_some_iff {reading : Reading} : readArtifact readers artifact = some reading ↔
    readPkeyconfig readers artifact = some (reading.configurations, reading.ranges) ∧
      (readers.parseLicence artifact.text).toOption = some reading.licence := by
  obtain ⟨readConfigurations, readRanges, licence⟩ := reading
  simp only [readArtifact, Option.bind_eq_bind, Option.bind_eq_some_iff, Prod.exists, Option.some.injEq,
    Reading.mk.injEq]
  constructor
  · rintro ⟨_, _, hfound, _, hlicence, rfl, rfl, rfl⟩
    exact ⟨hfound, hlicence⟩
  · rintro ⟨hfound, hlicence⟩
    exact ⟨_, _, hfound, _, hlicence, rfl, rfl, rfl⟩

/-- An artifact is absorbed just when it can be read and brings no second group. -/
theorem absorbArtifact_eq_ok_iff (h : Holds configurations ranges licences extraction)
    (hagree : GroupsAgree configurations) (readers : Readers) (artifact : Artifact) (sourceId : Text)
    (applications : List Guid) (result : List Guid × Extraction) :
    absorbArtifact readers sourceId (applications, extraction) artifact = .ok result ↔
      ∃ reading, readArtifact readers artifact = some reading ∧
        GroupsAgree (configurations ++ reading.configurations.map fun configuration => (sourceId, configuration)) ∧
        result = (addApplication applications reading, addReading sourceId extraction reading) := by
  have hbind : absorbArtifact readers sourceId (applications, extraction) artifact = .ok result ↔
      ∃ ranged, absorbPkeyconfig readers artifact sourceId extraction = .ok ranged ∧
        absorbLicence readers artifact sourceId applications ranged = .ok result := by
    rw [absorbArtifact]
    cases absorbPkeyconfig readers artifact sourceId extraction with
    | error message => simp [bind, Except.bind]
    | ok ranged => simp [bind, Except.bind]
  simp only [hbind, absorbPkeyconfig_eq_ok_iff h hagree, absorbLicence_eq_ok_iff, readArtifact_eq_some_iff]
  constructor
  · rintro ⟨_, ⟨found, hfound, hgroups, rfl⟩, licence, hlicence, rfl⟩
    exact ⟨⟨found.1, found.2, licence⟩, ⟨hfound, hlicence⟩, hgroups, rfl⟩
  · rintro ⟨reading, ⟨hfound, hlicence⟩, hgroups, rfl⟩
    exact ⟨_, ⟨_, hfound, hgroups, rfl⟩, reading.licence, hlicence, rfl⟩

theorem foldArtifacts_eq_ok_iff (h : Holds configurations ranges licences extraction)
    (hagree : GroupsAgree configurations) (readers : Readers) (sourceId : Text) (applications : List Guid) (artifacts : List Artifact)
    (result : List Guid × Extraction) :
    artifacts.foldlM (absorbArtifact readers sourceId) (applications, extraction) = .ok result ↔
      ∃ readings, artifacts.mapM (readArtifact readers) = some readings ∧
        GroupsAgree (configurations ++
          (readings.flatMap Reading.configurations).map fun configuration => (sourceId, configuration)) ∧
        result = (readings.foldl addApplication applications, readings.foldl (addReading sourceId) extraction) := by
  induction artifacts generalizing applications extraction configurations ranges licences with
  | nil =>
    simp only [List.foldlM_nil, List.mapM_nil, Option.some.injEq, exists_eq_left', List.flatMap_nil,
      List.map_nil, List.append_nil, List.foldl_nil, hagree, true_and, pure, Except.pure, Except.ok.injEq]
    exact eq_comm
  | cons artifact artifacts ih =>
    have hstep := absorbArtifact_eq_ok_iff h hagree readers artifact sourceId applications
    rw [List.foldlM_cons, List.mapM_cons]
    constructor
    · intro hok
      cases hfirst : absorbArtifact readers sourceId (applications, extraction) artifact with
      | error message =>
        rw [hfirst] at hok
        cases hok
      | ok next =>
        rw [hfirst] at hok
        obtain ⟨reading, hread, hone, rfl⟩ := (hstep next).mp hfirst
        obtain ⟨readings, hrest, hall, rfl⟩ := (ih (h.addReading sourceId reading) hone _).mp hok
        refine ⟨reading :: readings, by simp [hread, hrest], ?_, rfl⟩
        rwa [List.flatMap_cons, List.map_append, ← List.append_assoc]
    · rintro ⟨readings, hread, hall, rfl⟩
      simp only [Option.bind_eq_bind, Option.bind_eq_some_iff, Option.pure_def, Option.some.injEq] at hread
      obtain ⟨reading, hfirst, later, hlater, rfl⟩ := hread
      rw [List.flatMap_cons, List.map_append, ← List.append_assoc] at hall
      rw [(hstep _).mpr ⟨reading, hfirst, hall.left, rfl⟩]
      exact (ih (h.addReading sourceId reading) hall.left _).mpr ⟨later, hlater, hall, rfl⟩

/-! ### Applications of a directory -/

theorem mem_foldApplications {readings : List Reading} {applications : List Guid} {application : Guid} :
    application ∈ readings.foldl addApplication applications ↔
      application ∈ applications ∨ application ∈ readings.filterMap Reading.application := by
  induction readings generalizing applications with
  | nil => simp
  | cons reading readings ih =>
    rw [List.foldl_cons, ih, List.filterMap_cons, addApplication]
    cases reading.application with
    | none => rfl
    | some named => simp only [List.mem_insert_iff, List.mem_cons]; tauto

theorem nodup_foldApplications {readings : List Reading} {applications : List Guid} (h : applications.Nodup) :
    (readings.foldl addApplication applications).Nodup := by
  induction readings generalizing applications with
  | nil => exact h
  | cons reading readings ih =>
    refine ih ?_
    rw [addApplication]
    cases reading.application with
    | none => exact h
    | some named => exact h.insert

variable (contents : Contents)

theorem attributable_iff : contents.Attributable ↔ (contents.readings.foldl addApplication []).length ≤ 1 := by
  have hmem : ∀ application, application ∈ contents.readings.foldl addApplication [] ↔ application ∈ contents.applications :=
    fun application => by rw [mem_foldApplications, Contents.applications, or_iff_right List.not_mem_nil]
  have hnodup : (contents.readings.foldl addApplication []).Nodup := nodup_foldApplications List.nodup_nil
  rw [Contents.Attributable]
  simp only [← hmem]
  generalize contents.readings.foldl addApplication [] = found at hnodup
  match found, hnodup with
  | [], _ => simp
  | [a], _ => simp
  | a :: b :: rest, hnodup =>
    have hne : a ≠ b := by
      rintro rfl
      simp at hnodup
    simp [hne]

theorem head?_foldApplications (h : contents.Attributable) :
    (contents.readings.foldl addApplication []).head? = contents.application := by
  have hmem : ∀ application, application ∈ contents.readings.foldl addApplication [] ↔ application ∈ contents.applications :=
    fun application => by rw [mem_foldApplications, Contents.applications, or_iff_right List.not_mem_nil]
  cases hhead : (contents.readings.foldl addApplication []).head? with
  | none =>
    have hnone : contents.applications = [] := by
      rw [List.eq_nil_iff_forall_not_mem]
      intro application happlication
      rw [← hmem, List.head?_eq_none_iff.mp hhead] at happlication
      exact List.not_mem_nil happlication
    rw [Contents.application, hnone]
    rfl
  | some application =>
    have hfirst := (hmem application).mp (List.mem_of_head? hhead)
    cases hnamed : contents.applications.head? with
    | none => rw [List.head?_eq_none_iff.mp hnamed] at hfirst; cases hfirst
    | some named => rw [Contents.application, hnamed, h _ hfirst _ (List.mem_of_head? hnamed)]

/-! ### Directories -/

variable {contents}

theorem Holds.foldReadings (h : Holds configurations ranges licences extraction) (sourceId : Text)
    (readings : List Reading) :
    Holds (configurations ++
        (readings.flatMap Reading.configurations).map fun configuration => (sourceId, configuration))
      (ranges ++ readings.flatMap Reading.ranges) (licences ++ readings.map fun reading => (sourceId, reading.licence))
      (readings.foldl (Extraction.addReading sourceId) extraction) := by
  induction readings generalizing configurations ranges licences extraction with
  | nil => simpa using h
  | cons reading readings ih => simpa using ih (h.addReading sourceId reading)

theorem Holds.addContents (h : Holds configurations ranges licences extraction) (contents : Contents) :
    Holds (configurations ++ contents.configurations.map fun configuration => (contents.source.id, configuration))
      (ranges ++ contents.ranges)
      (licences ++ contents.readings.map fun reading => (contents.source.id, reading.licence))
      (extraction.addContents contents) :=
  { h.foldReadings contents.source.id contents.readings with }

theorem readRoot_eq_some_iff {root : Root} : readRoot readers root = some contents ↔
    (readSource root).toOption = some contents.source ∧ ∃ artifacts, root.artifacts.toOption = some artifacts ∧
      artifacts ≠ [] ∧ (sortBy (fun artifact => artifact.path.map codes) artifacts).mapM (readArtifact readers) =
        some contents.readings := by
  obtain ⟨source, readings⟩ := contents
  simp only [readRoot, Option.bind_eq_bind, Option.bind_eq_some_iff]
  constructor
  · rintro ⟨found, hsource, artifacts, hartifacts, h⟩
    split_ifs at h with hempty
    obtain ⟨_, hreadings, h⟩ := Option.bind_eq_some_iff.mp h
    cases h
    exact ⟨hsource, artifacts, hartifacts, hempty, hreadings⟩
  · rintro ⟨hsource, artifacts, hartifacts, hempty, hreadings⟩
    refine ⟨source, hsource, artifacts, hartifacts, ?_⟩
    rw [if_neg hempty, hreadings]
    rfl

/-- A directory is absorbed just when it can be read, names no two applications and
brings no second group. -/
theorem absorbRoot_eq_ok_iff (h : Holds configurations ranges licences extraction)
    (hagree : GroupsAgree configurations) (readers : Readers) (root : Root) (result : Extraction) :
    absorbRoot readers extraction root = .ok result ↔
      ∃ contents, readRoot readers root = some contents ∧ contents.Attributable ∧
        GroupsAgree (configurations ++
          contents.configurations.map fun configuration => (contents.source.id, configuration)) ∧
        result = extraction.addContents contents := by
  rw [absorbRoot]
  cases hsource : readSource root with
  | error message => simp [readRoot_eq_some_iff, hsource, bind, Except.bind, Except.toOption]
  | ok source =>
    cases hartifacts : root.artifacts with
    | error message => simp [readRoot_eq_some_iff, hartifacts, bind, Except.bind, Except.toOption]
    | ok artifacts =>
      by_cases hempty : artifacts = []
      · subst hempty
        have hnone : sortBy (fun artifact : Artifact => artifact.path.map codes) [] = [] := rfl
        simp [readRoot_eq_some_iff, hartifacts, hnone, bind, Except.bind, Except.toOption]
      · have hsome : (sortBy (fun artifact => artifact.path.map codes) artifacts).isEmpty = false := by
          rw [List.isEmpty_eq_false_iff, ← List.length_pos_iff, (perm_sortBy _ artifacts).length_eq]
          exact List.length_pos_iff.mpr hempty
        have hread : ∀ contents, readRoot readers root = some contents ↔ contents.source = source ∧
            (sortBy (fun artifact => artifact.path.map codes) artifacts).mapM (readArtifact readers) =
              some contents.readings := by
          intro contents
          simp [readRoot_eq_some_iff, hsource, hartifacts, Except.toOption, hempty, @eq_comm _ contents.source]
        have hfold := foldArtifacts_eq_ok_iff h hagree readers source.id []
          (sortBy (fun artifact => artifact.path.map codes) artifacts)
        simp only [bind, Except.bind, hsome, Bool.false_eq_true, if_false, hread]
        constructor
        · intro hok
          split at hok
          · cases hok
          · next found hfound =>
            obtain ⟨readings, hreadings, hgroups, rfl⟩ := (hfold found).mp hfound
            split_ifs at hok with hmany
            cases hok
            have hattributable : Contents.Attributable ⟨source, readings⟩ :=
              (attributable_iff _).mpr (Nat.le_of_not_lt hmany)
            refine ⟨⟨source, readings⟩, ⟨rfl, hreadings⟩, hattributable, hgroups, ?_⟩
            rw [head?_foldApplications ⟨source, readings⟩ hattributable]
            rfl
        · rintro ⟨contents, ⟨rfl, hreadings⟩, hattributable, hgroups, rfl⟩
          have hfound := (hfold _).mpr ⟨contents.readings, hreadings, hgroups, rfl⟩
          rw [hfound]
          simp only [Nat.not_lt.mpr ((attributable_iff contents).mp hattributable), if_false]
          rw [head?_foldApplications contents hattributable]
          rfl

theorem foldRoots_eq_ok_iff (h : Holds configurations ranges licences extraction) (hagree : GroupsAgree configurations)
    (readers : Readers) (roots : List Root) (result : Extraction) :
    roots.foldlM (absorbRoot readers) extraction = .ok result ↔
      ∃ contents, List.Forall₂ (fun root directory => readRoot readers root = some directory) roots contents ∧
        (∀ directory ∈ contents, directory.Attributable) ∧
        GroupsAgree (configurations ++ Dbgen.configurations contents) ∧ result = contents.foldl addContents extraction := by
  induction roots generalizing configurations ranges licences extraction with
  | nil =>
    simp only [List.foldlM_nil, List.forall₂_nil_left_iff, exists_eq_left, List.not_mem_nil, false_implies, implies_true,
      Dbgen.configurations, List.flatMap_nil, List.append_nil, hagree, true_and, List.foldl_nil, pure, Except.pure,
      Except.ok.injEq]
    exact eq_comm
  | cons root roots ih =>
    have hstep := absorbRoot_eq_ok_iff h hagree readers root
    rw [List.foldlM_cons]
    constructor
    · intro hok
      cases hfirst : absorbRoot readers extraction root with
      | error message =>
        rw [hfirst] at hok
        cases hok
      | ok next =>
        rw [hfirst] at hok
        obtain ⟨directory, hread, hone, hgroups, rfl⟩ := (hstep next).mp hfirst
        obtain ⟨contents, hrest, hothers, hall, rfl⟩ := (ih (h.addContents directory) hgroups).mp hok
        refine ⟨directory :: contents, .cons hread hrest, List.forall_mem_cons.mpr ⟨hone, hothers⟩, ?_, rfl⟩
        rwa [Dbgen.configurations, List.flatMap_cons, ← Dbgen.configurations, ← List.append_assoc]
    · rintro ⟨_, hread, hattributable, hall, rfl⟩
      cases hread with
      | @cons _ directory _ contents hfirst hrest =>
      rw [List.forall_mem_cons] at hattributable
      rw [Dbgen.configurations, List.flatMap_cons, ← Dbgen.configurations, ← List.append_assoc] at hall
      rw [(hstep _).mpr ⟨directory, hfirst, hattributable.1, hall.left, rfl⟩]
      exact (ih (h.addContents directory) hall.left).mpr ⟨contents, hrest, hattributable.2, hall, rfl⟩

/-! ### Joining -/

theorem Holds.foldContents (h : Holds configurations ranges licences extraction) (contents : List Contents) :
    Holds (configurations ++ Dbgen.configurations contents) (ranges ++ contents.flatMap Contents.ranges)
      (licences ++ contents.flatMap fun directory =>
        directory.readings.map fun reading => (directory.source.id, reading.licence))
      (contents.foldl Extraction.addContents extraction) := by
  induction contents generalizing configurations ranges licences extraction with
  | nil => simpa [Dbgen.configurations] using h
  | cons directory contents ih => simpa [Dbgen.configurations] using ih (h.addContents directory)

theorem sources_foldReadings (sourceId : Text) (readings : List Reading) (extraction : Extraction) :
    (readings.foldl (addReading sourceId) extraction).sources = extraction.sources := by
  have hrange : ∀ (ranges : List PkeyKeyRange) (extraction : Extraction),
      (ranges.foldl absorbRange extraction).sources = extraction.sources := by
    intro ranges
    induction ranges with
    | nil => exact fun _ => rfl
    | cons range ranges ih =>
      intro extraction
      rw [List.foldl_cons, ih, absorbRange]
      split_ifs <;> rfl
  have hconfiguration : ∀ (configurations : List PkeyConfiguration) (extraction : Extraction),
      (configurations.foldl (addConfiguration sourceId) extraction).sources = extraction.sources := by
    intro configurations
    induction configurations with
    | nil => exact fun _ => rfl
    | cons configuration configurations ih =>
      intro extraction
      rw [List.foldl_cons, ih, addConfiguration]
      split <;> rfl
  have hlicence : ∀ (licence : Licence) (extraction : Extraction),
      (addLicence sourceId extraction licence).sources = extraction.sources := by
    intro licence extraction
    rw [addLicence]
    split
    · rfl
    · dsimp only
      split <;> rfl
  induction readings generalizing extraction with
  | nil => rfl
  | cons reading readings ih => rw [List.foldl_cons, ih, addReading, hlicence, hconfiguration, hrange]

theorem sources_foldContents (contents : List Contents) (extraction : Extraction) :
    (contents.foldl addContents extraction).sources = extraction.sources ++ contents.map Contents.toSource := by
  induction contents generalizing extraction with
  | nil => simp
  | cons directory contents ih =>
    have hone : (extraction.addContents directory).sources = extraction.sources ++ [directory.toSource] := by
      rw [addContents, sources_foldReadings]
    rw [List.foldl_cons, ih, hone, List.map_cons, List.append_assoc, List.singleton_append]

/-- The last source of a name says which application it has. -/
theorem valueOf_applicationBySource (sources : List Source) (id : Text) :
    valueOf (applicationBySource sources) id = (sources.reverse.find? fun source => source.id = id).map Source.application := by
  have hincreasing : ∀ sources : List Source,
      Increasing (fun entry => codes entry.1) (applicationBySource sources) := by
    intro sources
    induction sources using List.reverseRecOn with
    | nil => exact List.Pairwise.nil
    | append_singleton sources source ih =>
      rw [applicationBySource, List.foldl_append]
      exact increasing_upsert codes_injective _ _ ih
  induction sources using List.reverseRecOn with
  | nil => rfl
  | append_singleton sources source ih =>
    have hstep : applicationBySource (sources ++ [source]) =
        upsert codes source.id (fun _ => source.application) (applicationBySource sources) := by
      simp [applicationBySource]
    rw [hstep, valueOf_upsert _ _ (hincreasing sources), ih, List.reverse_concat, List.find?_cons]
    by_cases hkey : source.id = id
    · simp [hkey]
    · simp [hkey, Ne.symm hkey]

theorem sourceApplication_eq (contents : List Contents) (id : Text) :
    (valueOf (applicationBySource (contents.map Contents.toSource)) id).join = sourceApplication contents id := by
  have hname : (fun source : Source => decide (source.id = id)) ∘ Contents.toSource =
      fun directory => decide (directory.source.id = id) := rfl
  rw [valueOf_applicationBySource, sourceApplication, ← List.map_reverse, List.find?_map, hname]
  cases contents.reverse.find? fun directory => directory.source.id = id with
  | none => rfl
  | some directory => rfl

end Extraction

end Kmsrs.Dbgen
