import Kmsrs.Dbgen.Extract
import Kmsrs.Lib.Preferred

/-! What the directories give for a product, each by itself and all together: the first
configuration, every valid block, the licence that is kept, and where that names no
application the one of the directory the configuration came from. -/

namespace Kmsrs.Dbgen

open Kmsrs.Kms Kmsrs.Sorted Kmsrs.Preferred

/-! ### Directories -/

/-- What the readers make of an artifact. -/
structure Reading where
  configurations : List PkeyConfiguration
  ranges : List PkeyKeyRange
  licence : Licence

def readPkeyconfig (readers : Readers) (artifact : Artifact) : Option (List PkeyConfiguration × List PkeyKeyRange) :=
  (readers.pkeyconfigPayload artifact.text).toOption.bind fun payload =>
    match payload with
    | none => some ([], [])
    | some payload => (readers.parsePkeyconfig payload).toOption

def readArtifact (readers : Readers) (artifact : Artifact) : Option Reading := do
  let (configurations, ranges) ← readPkeyconfig readers artifact
  let licence ← (readers.parseLicence artifact.text).toOption
  some ⟨configurations, ranges, licence⟩

/-- A directory, read. -/
structure Contents where
  source : Source
  readings : List Reading

def readRoot (readers : Readers) (root : Root) : Option Contents := do
  let source ← (readSource root).toOption
  let artifacts ← root.artifacts.toOption
  if artifacts = [] then none
  else
    let readings ← (sortBy (fun artifact => artifact.path.map codes) artifacts).mapM (readArtifact readers)
    some ⟨source, readings⟩

/-- The application of a licence counts only where the licence names its product. -/
def Reading.application (reading : Reading) : Option Guid :=
  reading.licence.productSkuId.bind fun _ => reading.licence.applicationId

/-- A range's block, if the range is valid and the product's. -/
def PkeyKeyRange.block (product : Guid) (range : PkeyKeyRange) : Option KeyBlock :=
  if range.isValid ∧ range.activationId = product then some ⟨range.partNumber, range.start, range.stop⟩ else none

def Reading.licenceOf (product : Guid) (reading : Reading) : Option Licence :=
  if reading.licence.productSkuId = some product then some reading.licence else none

def Licence.counts (licence : Licence) : Bool := !licence.countedIds.isEmpty

namespace Contents

variable (contents : Contents)

def configurations : List PkeyConfiguration := contents.readings.flatMap Reading.configurations

def ranges : List PkeyKeyRange := contents.readings.flatMap Reading.ranges

/-- The first configuration of a product. -/
def configuration (product : Guid) : Option PkeyConfiguration :=
  contents.configurations.find? fun configuration => configuration.activationId = product

def licences (product : Guid) : List Licence := contents.readings.filterMap (Reading.licenceOf product)

/-- The licence of a product that is kept. -/
def licence (product : Guid) : Option Licence := preferred Licence.counts (contents.licences product)

def applications : List Guid := contents.readings.filterMap Reading.application

def application : Option Guid := contents.applications.head?

/-- Its licences name no two applications. -/
def Attributable : Prop := ∀ a ∈ contents.applications, ∀ b ∈ contents.applications, a = b

def toSource : Source := { contents.source with application := contents.application }

end Contents

/-! ### All directories -/

section
variable (contents : List Contents)

/-- The configurations in the order they are read, with their directories. -/
def configurations : List (Text × PkeyConfiguration) :=
  contents.flatMap fun directory => directory.configurations.map fun configuration => (directory.source.id, configuration)

/-- No key has two groups. -/
def GroupsAgree (configurations : List (Text × PkeyConfiguration)) : Prop :=
  ∀ a ∈ configurations, ∀ b ∈ configurations, a.2.activationId = b.2.activationId → a.2.groupId = b.2.groupId

/-- The directories as they can be merged. -/
structure Admitted : Prop where
  attributable : ∀ directory ∈ contents, directory.Attributable
  groups : GroupsAgree (configurations contents)

/-- The licence kept of all, with its directory. -/
def keptLicence (product : Guid) : Option (Licence × Text) :=
  preferred (fun entry => entry.1.counts)
    (contents.filterMap fun directory => (directory.licence product).map fun licence => (licence, directory.source.id))

/-- The application of the last directory of a name. -/
def sourceApplication (id : Text) : Option Guid :=
  (contents.reverse.find? fun directory => directory.source.id = id).bind Contents.application

/-- The product a configuration begins. -/
def newProduct (sourceId : Text) (configuration : PkeyConfiguration) : Product where
  activationId := configuration.activationId
  groupId := configuration.groupId
  editionId := configuration.editionId
  description := configuration.description
  keyType := configuration.keyType
  keyBlocks := []
  application := none
  countedIds := []
  cmidExpirationMinutes := none
  source := sourceId
  licenceSource := none

/-- A configuration with the blocks and the licence of its key. -/
def assemble (sourceId : Text) (configuration : PkeyConfiguration) : Product :=
  let product := configuration.activationId
  let kept := keptLicence contents product
  { newProduct sourceId configuration with
    keyBlocks := dropRepeats (sortBy KeyBlock.sortKey
      (contents.flatMap fun directory => directory.ranges.filterMap (PkeyKeyRange.block product)))
    countedIds := dropRepeats (sortBy Db.rank ((kept.map fun entry => entry.1.countedIds).getD []))
    application := (kept.bind fun entry => entry.1.applicationId).or (sourceApplication contents sourceId)
    cmidExpirationMinutes := kept.bind fun entry => entry.1.cmidExpirationMinutes
    licenceSource := kept.map Prod.snd }

/-- The product of an id. -/
def productOf (product : Guid) : Option Product :=
  ((configurations contents).find? fun entry => entry.2.activationId = product).map fun entry =>
    assemble contents entry.1 entry.2

end

end Kmsrs.Dbgen
