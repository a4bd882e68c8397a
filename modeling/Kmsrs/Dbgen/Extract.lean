import Kmsrs.Dbgen.Model
import Kmsrs.Server.Display

/-! Turning directories of artifacts into a database. What a directory holds on disk
and what the readers of the artifacts' formats make of a text are data; the merging is
the program's. A failure is its message. -/

namespace Kmsrs.Dbgen

open Kmsrs.Kms Kmsrs.Sorted Text

/-! ### Artifacts -/

/-- The names that lead to a file. -/
abbrev Path := List Text

namespace Path

def display (path : Path) : Text := List.intercalate ['/'] path

/-- `..` is no name. -/
def fileName (path : Path) : Option Text := path.getLast?.filter fun name => name ≠ "..".toList

end Path

structure Artifact where
  path : Path
  text : Text

def Artifact.name (artifact : Artifact) : Text := artifact.path.fileName.getD artifact.path.display

/-- One `<Configuration>`. -/
structure PkeyConfiguration where
  activationId : Guid
  groupId : UInt32
  editionId : Text
  description : Text
  keyType : Text
deriving DecidableEq

/-- One `<KeyRange>`. -/
structure PkeyKeyRange where
  activationId : Guid
  partNumber : Text
  isValid : Bool
  start : UInt32
  stop : UInt32
deriving DecidableEq

/-- The interesting fields of a licence. -/
structure Licence where
  productSkuId : Option Guid
  applicationId : Option Guid
  countedIds : List Guid
  cmidExpirationMinutes : Option UInt32
deriving DecidableEq

abbrev Result := Except Text

/-- `Context::context` on a result. -/
def Result.context {α : Type} (result : Result α) (context : Text) : Result α :=
  result.mapError fun cause => context ++ ": ".toList ++ cause

/-- `Context::context` on an option. -/
def orContext {α : Type} (value : Option α) (context : Text) : Result α :=
  match value with
  | some value => .ok value
  | none => .error context

/-- What the formats' readers make of an artifact's text. -/
structure Readers where
  pkeyconfigPayload : Text → Result (Option Text)
  parsePkeyconfig : Text → Result (List PkeyConfiguration × List PkeyKeyRange)
  parseLicence : Text → Result Licence

/-- A directory: its `SOURCE` file, or why that cannot be read, and the artifacts
below it. -/
structure Root where
  path : Path
  sourceText : Result Text
  artifacts : Result (List Artifact)

/-! ### Provenance -/

/-- `str::lines`: a line that a newline ends loses a carriage return before it. -/
def lines (text : Text) : List Text :=
  let pieces := text.splitOn '\n'
  let ended := pieces.dropLast.map fun line => if line.getLast? = some '\r' then line.dropLast else line
  ended ++ (pieces.getLast?.filter fun line => line ≠ []).toList

def readSource (root : Root) : Result Source := do
  let id ← orContext root.path.fileName (root.path.display ++ " has no directory name".toList)
  let path := Path.display (root.path ++ ["SOURCE".toList])
  let text ← Result.context root.sourceText (root.path.display ++
    " has no SOURCE file; every artifact directory must record what it is and where it came from (DB-002, #126)".toList)
  let description ← orContext (lines text)[0]? (path ++ " is empty".toList)
  let origin ← orContext (lines text)[1]? (path ++ " has no origin line".toList)
  return ⟨id, trim description, trim origin, [], none⟩

/-! ### Absorbing an artifact -/

def applicationNames : List (Text × Text) := [
  ("55c92734-d682-4d71-983e-d6ec3f16059f".toList, "Windows".toList),
  ("59a52881-a989-479d-af46-f275c6370663".toList, "Office 2010".toList),
  ("0ff1ce15-a989-479d-af46-f275c6370663".toList, "Office 2013 and later".toList)]

def applicationName (application : Guid) : Text :=
  ((applicationNames.find? fun entry => entry.1 = application.display).map Prod.snd).getD "Unknown application".toList

/-- What has been extracted so far. -/
structure Extraction where
  sources : List Source
  products : List Product
  licences : List (Guid × Licence × Text)
  ranges : List (Guid × List KeyBlock)
  applications : List (Guid × Text × Text)

namespace Extraction

/-- The ranges that are valid, each under its activation id. -/
def absorbRange (extraction : Extraction) (range : PkeyKeyRange) : Extraction :=
  if range.isValid then
    { extraction with
      ranges := upsert Db.rank range.activationId
        (fun blocks => blocks.getD [] ++ [⟨range.partNumber, range.start, range.stop⟩]) extraction.ranges }
  else extraction

/-- The first configuration of a key is kept. A later one has to give the same group. -/
def absorbConfiguration (artifact : Artifact) (sourceId : Text) (extraction : Extraction)
    (configuration : PkeyConfiguration) : Result Extraction :=
  match extraction.products.find? fun product => product.activationId = configuration.activationId with
  | some existing =>
    if existing.groupId ≠ configuration.groupId then
      .error (artifact.name ++ " gives group ".toList ++ decimal configuration.groupId.toNat ++ " for CSVLK ".toList ++
        configuration.activationId.display ++ ", but ".toList ++ existing.source ++ " gave group ".toList ++
        decimal existing.groupId.toNat)
    else .ok extraction
  | none =>
    .ok { extraction with
      products := extraction.products ++ [{
        activationId := configuration.activationId
        groupId := configuration.groupId
        editionId := configuration.editionId
        description := configuration.description
        keyType := configuration.keyType
        keyBlocks := []
        application := none
        countedIds := []
        cmidExpirationMinutes := none
        source := sourceId
        licenceSource := none }] }

def absorbPkeyconfig (readers : Readers) (artifact : Artifact) (sourceId : Text) (extraction : Extraction) :
    Result Extraction := do
  match ← Result.context (readers.pkeyconfigPayload artifact.text) ("in ".toList ++ artifact.name) with
  | none => return extraction
  | some payload =>
    let (configurations, ranges) ← Result.context (readers.parsePkeyconfig payload) ("in ".toList ++ artifact.name)
    configurations.foldlM (absorbConfiguration artifact sourceId) (ranges.foldl absorbRange extraction)

/-- The first licence is kept, unless it counts nothing and a later one does. -/
def keepLicence (licence : Licence) (sourceId : Text) : Option (Licence × Text) → Licence × Text
  | none => (licence, sourceId)
  | some slot => if slot.1.countedIds.isEmpty && !licence.countedIds.isEmpty then (licence, sourceId) else slot

/-- The applications of a source are a set: its size is read, and its one element. -/
def absorbLicence (readers : Readers) (artifact : Artifact) (sourceId : Text) (sourceApplications : List Guid)
    (extraction : Extraction) : Result (List Guid × Extraction) := do
  let licence ← Result.context (readers.parseLicence artifact.text) ("in ".toList ++ artifact.name)
  match licence.productSkuId with
  | none => return (sourceApplications, extraction)
  | some activation =>
    let licences := upsert Db.rank activation (keepLicence licence sourceId) extraction.licences
    match licence.applicationId with
    | none => return (sourceApplications, { extraction with licences })
    | some application =>
      let applications := upsert Db.rank application
        (fun slot => slot.getD (applicationName application, sourceId)) extraction.applications
      return (sourceApplications.insert application, { extraction with licences, applications })

def absorbArtifact (readers : Readers) (sourceId : Text) (state : List Guid × Extraction) (artifact : Artifact) :
    Result (List Guid × Extraction) := do
  let extraction ← absorbPkeyconfig readers artifact sourceId state.2
  absorbLicence readers artifact sourceId state.1 extraction

/-- One directory. Its products can be attributed to an application only if its
licences name no second one. -/
def absorbRoot (readers : Readers) (extraction : Extraction) (root : Root) : Result Extraction := do
  let source ← readSource root
  let artifacts ← root.artifacts
  let artifacts := sortBy (fun artifact => artifact.path.map codes) artifacts
  if artifacts.isEmpty then
    .error (root.path.display ++ " contains no .xrm-ms artifacts".toList)
  else
    let (sourceApplications, extraction) ← artifacts.foldlM (absorbArtifact readers source.id) ([], extraction)
    if 1 < sourceApplications.length then
      .error (source.id ++ " names ".toList ++ decimal sourceApplications.length ++
        " applications, so its products cannot be attributed to one".toList)
    else
      return { extraction with
        sources := extraction.sources ++ [{ source with application := sourceApplications.head? }] }

/-! ### Joining -/

/-- The licence of a key says what it counts, and for which application; where none
names an application the source does. -/
def joinLicence (licences : List (Guid × Licence × Text)) (applicationBySource : List (Text × Option Guid))
    (product : Product) : Product :=
  let product := match valueOf licences product.activationId with
    | none => product
    | some (licence, licenceSource) =>
      { product with
        countedIds := licence.countedIds
        application := licence.applicationId
        cmidExpirationMinutes := licence.cmidExpirationMinutes
        licenceSource := some licenceSource }
  if product.application.isNone then
    { product with application := (valueOf applicationBySource product.source).join }
  else product

/-- The blocks of a key are taken from the map by the first product with its id. -/
def joinProducts (licences : List (Guid × Licence × Text)) (applicationBySource : List (Text × Option Guid)) :
    List (Guid × List KeyBlock) → List Product → List Product
  | _, [] => []
  | ranges, product :: products =>
    let joined := match valueOf ranges product.activationId with
      | none => product
      | some keyBlocks => { product with keyBlocks }
    joinLicence licences applicationBySource joined ::
      joinProducts licences applicationBySource (ranges.filter fun entry => entry.1 ≠ product.activationId) products

/-- Of two sources with one id the later stands. -/
def applicationBySource (sources : List Source) : List (Text × Option Guid) :=
  sources.foldl (fun map source => upsert codes source.id (fun _ => source.application) map) []

def toDatabase (extraction : Extraction) : Database :=
  Database.sort {
    sources := extraction.sources
    applications := extraction.applications.map fun (guid, name, source) => ⟨guid, name, source⟩
    products := joinProducts extraction.licences (applicationBySource extraction.sources) extraction.ranges
      extraction.products
    hostBuilds := []
    lcids := []
    gvlks := [] }

end Extraction

/-- Every directory, one after the other. -/
def extract (readers : Readers) (roots : List Root) : Result Database := do
  let extraction ← roots.foldlM (Extraction.absorbRoot readers) ⟨[], [], [], [], []⟩
  return extraction.toDatabase

end Kmsrs.Dbgen
