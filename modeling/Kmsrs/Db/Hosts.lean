import Kmsrs.Db.Build
import Kmsrs.Db.Date
import Kmsrs.Lib.Rows
import Kmsrs.Lib.Split
import Mathlib.Data.String.Basic

/-! The rest of the build: the Windows builds and the locales an identity is drawn from,
the client setup keys, and what is asserted of them when the tables are compiled. -/

namespace Kmsrs.Db

open Kmsrs.Sorted Text

/-! ### The document -/

structure HostBuildRow where
  build : Option ℤ
  platformId : Option ℤ
  releaseDate : Option String
  useForEpid : Option Bool
  ndr64 : Option Bool
  description : Option String

structure GvlkRow where
  release : Option String
  edition : Option String
  key : Option String

structure LcidRow where
  value : Option ℤ
  tag : Option String
  language : Option String
  location : Option String

/-- The whole document. -/
structure ProductsDocument extends Document where
  hostBuild : Option (List HostBuildRow)
  gvlk : Option (List GvlkRow)
  lcid : Option (List LcidRow)

/-! ### Tables -/

structure HostBuild where
  build : UInt32
  platformId : UInt32
  releaseDate : Option Date
  useForEpid : Bool
  ndr64 : Bool
  description : String

structure Lcid where
  value : UInt32
  tag : String
  language : String
  location : String

structure Gvlk where
  release : String
  edition : String
  key : String
deriving DecidableEq

/-- How many key ids there are in a block. -/
def KeyBlock.keyCount (block : KeyBlock) : ℕ := min (2 ^ 32 - 1) (block.stop.toNat - block.start.toNat + 1)

def KeyBlock.contains (block : KeyBlock) (keyId : ℕ) : Prop := block.start.toNat ≤ keyId ∧ keyId ≤ block.stop.toNat

/-- How many ids there are from the first to the last. -/
def KeyBlock.size (block : KeyBlock) : ℕ := block.stop.toNat + 1 - block.start.toNat

/-! ### Reading rows -/

def integer (value : Option ℤ) : Option UInt32 := value.bind tryFromU32

/-- `str::parse` of a number below a limit, without a minus sign. -/
def parseBelow (limit : ℕ) (text : Text) : Option ℕ :=
  let digits := if text.head? = some '+' then text.tail else text
  let value := Nat.ofDigitChars 10 digits 0
  if digits ≠ [] ∧ digits.all Char.isDigit ∧ value < limit then some value else none

/-- A date of a row. That the month has the day is left to `Date.new`. -/
structure CivilDate where
  year : ℕ
  month : ℕ
  day : ℕ

/-- The parts have no hyphen in them, so that no part is negative. -/
def parseDate (text : String) : Option CivilDate :=
  match text.toList.splitOn '-' with
  | [year, month, day] => do
    let year ← parseBelow (2 ^ 31) year
    let month ← parseBelow 256 month
    let day ← parseBelow 256 day
    if 1 ≤ month ∧ month ≤ 12 ∧ 1 ≤ day ∧ day ≤ 31 then some ⟨year, month, day⟩ else none
  | _ => none

/-- A host build row, read. -/
structure ParsedHostBuild where
  build : UInt32
  platformId : UInt32
  releaseDate : Option CivilDate
  useForEpid : Bool
  ndr64 : Bool
  description : String

def readReleaseDate : Option String → Option (Option CivilDate)
  | none => some none
  | some text => (parseDate text).map some

def readHostBuild (row : HostBuildRow) : Option ParsedHostBuild := do
  let build ← integer row.build
  let platformId ← integer row.platformId
  let releaseDate ← readReleaseDate row.releaseDate
  let useForEpid := row.useForEpid.getD false
  let ndr64 ← row.ndr64
  -- a build that an identity may claim has the date from which it may
  if useForEpid ∧ releaseDate.isNone then none
  else
    let description ← row.description
    some { build, platformId, releaseDate, useForEpid, ndr64, description }

/-- `Date::new` is what the compiled table calls. -/
def ParsedHostBuild.toHostBuild (row : ParsedHostBuild) : HostBuild :=
  { row with releaseDate := row.releaseDate.bind fun date => Date.new date.year date.month date.day }

def readLcid (row : LcidRow) : Option Lcid := do
  let value ← integer row.value
  -- below are the primary languages
  if value < 1025 then none else some ⟨value, ← row.tag, ← row.language, ← row.location⟩

/-- Five groups of five, of capitals and digits. -/
def isProductKey (text : Text) : Bool :=
  let groups := text.splitOn '-'
  groups.length = 5 && groups.all fun group => utf8Len group = 5 && group.all fun c => c.isUpper || c.isDigit

def readGvlk (row : GvlkRow) : Option Gvlk := do
  let release ← row.release
  let edition ← row.edition
  let key ← row.key
  if isProductKey key.toList ∧ edition ≠ "" ∧ release ≠ "" then some ⟨release, edition, key⟩ else none

/-! ### Writing tables -/

/-- The places of the builds an identity may claim. -/
def epidIndices (builds : List ParsedHostBuild) : List ℕ :=
  (builds.zipIdx.filter fun entry => entry.1.useForEpid).map Prod.snd

def writeHostBuilds (document : ProductsDocument) : Option (List HostBuild × List UInt16) := do
  let rows ← document.hostBuild
  let builds ← rows.mapM readHostBuild
  let builds := builds.insertionSort fun a b => a.build ≤ b.build
  -- a place is written in sixteen bits
  if (builds.map ParsedHostBuild.build).Nodup ∧ epidIndices builds ≠ [] ∧ ∀ index ∈ epidIndices builds, index < 2 ^ 16 then
    some (builds.map ParsedHostBuild.toHostBuild, (epidIndices builds).map .ofNat)
  else none

def writeLcids (document : ProductsDocument) : Option (List Lcid) := do
  let rows ← document.lcid
  let locales ← rows.mapM readLcid
  let locales := locales.insertionSort fun a b => a.value ≤ b.value
  if (locales.map Lcid.value).Nodup ∧ locales ≠ [] then some locales else none

def Gvlk.sortKey (key : Gvlk) : String ×ₗ String ×ₗ String := toLex (key.release, toLex (key.edition, key.key))

def writeGvlks (document : ProductsDocument) : Option (List Gvlk) := do
  let rows ← document.gvlk
  let keys ← rows.mapM readGvlk
  let keys := dropRepeats (keys.insertionSort fun a b => a.sortKey ≤ b.sortKey)
  if (keys.map fun key => (key.release, key.edition)).Nodup ∧ keys ≠ [] then some keys else none

/-- There is always a build to draw from, and every such build has a release date. -/
def Drawable (hostBuilds : List HostBuild) (epidHostBuilds : List UInt16) : Prop :=
  epidHostBuilds ≠ [] ∧ ∀ index ∈ epidHostBuilds, ∃ build ∈ hostBuilds[index.toNat]?,
    build.useForEpid ∧ build.releaseDate.isSome

instance (hostBuilds : List HostBuild) (epidHostBuilds : List UInt16) : Decidable (Drawable hostBuilds epidHostBuilds) :=
  inferInstanceAs (Decidable (_ ∧ ∀ index ∈ epidHostBuilds, ∃ build ∈ hostBuilds[index.toNat]?, _))

/-- Everything that is compiled. -/
structure Compiled extends Catalogue where
  hostBuilds : List HostBuild
  epidHostBuilds : List UInt16
  lcids : List Lcid
  gvlks : List Gvlk
  drawable : Drawable hostBuilds epidHostBuilds
  lcids_ne_nil : lcids ≠ []
  gvlks_ne_nil : gvlks ≠ []

/-- The tables of a document, if it is accepted. -/
def compile (document : ProductsDocument) : Option Compiled := do
  let catalogue ← generate document.toDocument
  let (hostBuilds, epidHostBuilds) ← writeHostBuilds document
  let gvlks ← writeGvlks document
  let lcids ← writeLcids document
  if h : Drawable hostBuilds epidHostBuilds ∧ lcids ≠ [] ∧ gvlks ≠ [] then
    some { catalogue with
      hostBuilds, epidHostBuilds, lcids, gvlks, drawable := h.1, lcids_ne_nil := h.2.1, gvlks_ne_nil := h.2.2 }
  else none

/-! ### Lookups -/

namespace Compiled

def epidHostBuildAt (compiled : Compiled) (position : ℕ) : Option HostBuild :=
  (compiled.epidHostBuilds[position]?).bind fun index => compiled.hostBuilds[index.toNat]?

def lcidAt (compiled : Compiled) (position : ℕ) : Option Lcid := compiled.lcids[position]?

end Compiled

/-! ### From row to table -/

theorem tryFromU32_eq_some_iff {value : ℤ} {word : UInt32} : tryFromU32 value = some word ↔ value = word.toNat := by
  have hlt := word.toNat_lt
  rw [tryFromU32]
  split_ifs with hrange
  · rw [Option.some.injEq, ← UInt32.toNat_inj, UInt32.toNat_ofNat_of_lt' (by simp only [UInt32.size]; omega)]
    omega
  · simp only [false_iff]
    omega

theorem integer_eq_some_iff {value : Option ℤ} {word : UInt32} : integer value = some word ↔ value = some (word.toNat : ℤ) := by
  rw [integer, Option.bind_eq_some_iff]
  simp only [tryFromU32_eq_some_iff, exists_eq_right]

theorem parseBelow_lt {limit n : ℕ} {text : Text} (h : parseBelow limit text = some n) : n < limit := by
  unfold parseBelow at h
  extract_lets digits value at h
  split_ifs at h with hread
  rw [← Option.some.inj h]
  exact hread.2.2

theorem year_lt_of_parseDate {text : String} {date : CivilDate} (h : parseDate text = some date) : date.year < 2 ^ 31 := by
  rw [parseDate] at h
  split at h
  · simp only [Option.bind_eq_bind, Option.bind_eq_some_iff] at h
    obtain ⟨year, hyear, month, -, day, -, h⟩ := h
    split_ifs at h
    cases h
    exact parseBelow_lt hyear
  · cases h

/-- A build row keeps its fields. -/
theorem readHostBuild_eq_some {row : HostBuildRow} {parsed : ParsedHostBuild} (h : readHostBuild row = some parsed) :
    row.platformId = some (parsed.platformId.toNat : ℤ) ∧ readReleaseDate row.releaseDate = some parsed.releaseDate ∧
      parsed.useForEpid = row.useForEpid.getD false := by
  simp only [readHostBuild, Option.bind_eq_bind, Option.bind_eq_some_iff] at h
  obtain ⟨build, -, platform, hplatform, release, hrelease, ndr64, -, h⟩ := h
  split_ifs at h
  obtain ⟨description, -, h⟩ := Option.bind_eq_some_iff.mp h
  cases h
  exact ⟨integer_eq_some_iff.mp hplatform, hrelease, rfl⟩

theorem readLcid_eq_some {row : LcidRow} {lcid : Lcid} (h : readLcid row = some lcid) :
    row.value = some (lcid.value.toNat : ℤ) ∧ 1025 ≤ lcid.value := by
  simp only [readLcid, Option.bind_eq_bind, Option.bind_eq_some_iff] at h
  obtain ⟨value, hvalue, h⟩ := h
  split_ifs at h with hlow
  simp only [Option.bind_eq_some_iff, Option.some.injEq] at h
  obtain ⟨tag, -, language, -, location, -, rfl⟩ := h
  exact ⟨integer_eq_some_iff.mp hvalue, UInt32.not_lt.mp hlow⟩

theorem readKeyBlock_eq_some {row : KeyBlockRow} {block : KeyBlock} (h : readKeyBlock row = some block) :
    row.stop = some (block.stop.toNat : ℤ) := by
  simp only [readKeyBlock, Option.bind_eq_bind, Option.bind_eq_some_iff, Option.some.injEq] at h
  obtain ⟨start, -, stop, hstop, first, -, last, hlast, rfl⟩ := h
  rw [hstop, tryFromU32_eq_some_iff.mp hlast]

theorem readKeyBlocks_eq_some {row : ProductRow} {blocks : List KeyBlock} (h : readKeyBlocks row = some blocks) :
    (∀ block ∈ blocks, block.start ≤ block.stop) ∧
      ∃ read, List.Forall₂ (fun row block => readKeyBlock row = some block) (row.keyBlocks.getD []) read ∧
        ∀ block, block ∈ blocks ↔ block ∈ read := by
  simp only [readKeyBlocks, Option.bind_eq_bind, Option.bind_eq_some_iff] at h
  obtain ⟨read, hread, h⟩ := h
  split_ifs at h with hforward
  cases h
  refine ⟨hforward, read, mapM_eq_some_iff.mp hread, fun block => ?_⟩
  rw [mem_dropRepeats, List.mem_insertionSort]

theorem readProduct_eq_some {applications : List Application} {row : ProductRow} {parsed : ParsedProduct}
    (h : readProduct applications row = some parsed) :
    row.groupId = some (parsed.groupId.toNat : ℤ) ∧ row.keyType = some parsed.keyType ∧
      readKeyBlocks row = some parsed.keyBlocks := by
  simp only [readProduct, Option.bind_eq_bind, Option.bind_eq_some_iff] at h
  obtain ⟨activation, -, group, hgroup, groupId, hgroupId, h⟩ := h
  split_ifs at h
  simp only [Option.bind_eq_some_iff, Option.some.injEq] at h
  obtain ⟨application, -, counted, -, blocks, hblocks, id, -, description, -, edition, -, keyType, hkeyType, rfl⟩ := h
  exact ⟨by rw [hgroup, tryFromU32_eq_some_iff.mp hgroupId], hkeyType, hblocks⟩

/-- The host keys are the rows of their type. -/
theorem generate_csvlks {document : Document} {catalogue : Catalogue} (h : generate document = some catalogue) :
    ∃ applications rows parsed, document.product = some rows ∧
      List.Forall₂ (fun row product => readProduct applications row = some product) rows parsed ∧
      (∀ csvlk, csvlk ∈ catalogue.csvlks ↔ ∃ product ∈ parsed, product.isHost ∧ product.toCsvlk = csvlk) ∧
      ∀ csvlk ∈ catalogue.csvlks, csvlk.keyBlocks ≠ [] ∧ blocksOverlap none csvlk.keyBlocks = none := by
  simp only [generate, Option.bind_eq_bind, Option.bind_eq_some_iff] at h
  obtain ⟨applications, -, parsed, hparsed, products, -, csvlks, hcsvlks, countedIds, -, h⟩ := h
  split_ifs at h
  cases h
  simp only [readProducts, Option.bind_eq_bind, Option.bind_eq_some_iff] at hparsed
  obtain ⟨rows, hrows, read, hread, hsorted⟩ := hparsed
  split_ifs at hsorted
  cases hsorted
  rw [writeCsvlks] at hcsvlks
  split_ifs at hcsvlks with hblocks
  cases hcsvlks
  refine ⟨applications, rows, read, hrows, mapM_eq_some_iff.mp hread, fun csvlk => ?_, ?_⟩
  · simp only [List.mem_map, List.mem_filter, List.mem_insertionSort, and_assoc]
  · intro csvlk hcsvlk
    obtain ⟨product, hproduct, rfl⟩ := List.mem_map.mp hcsvlk
    exact hblocks product hproduct

/-- Different numbers of a range are no more than the range has. -/
theorem length_le_of_nodup {places : List ℕ} (hnodup : places.Nodup) (low high : ℕ)
    (h : ∀ place ∈ places, low ≤ place ∧ place < high) : places.length ≤ high - low := by
  rw [← List.toFinset_card_of_nodup hnodup, ← Nat.card_Ico]
  refine Finset.card_le_card fun place hplace => ?_
  rw [List.mem_toFinset] at hplace
  exact Finset.mem_Ico.mpr (h place hplace)

section
variable {document : ProductsDocument}

theorem writeLcids_eq_some {lcids : List Lcid} (h : writeLcids document = some lcids) :
    lcids.length < 2 ^ 32 ∧ ∃ rows read, document.lcid = some rows ∧
      List.Forall₂ (fun row lcid => readLcid row = some lcid) rows read ∧ ∀ lcid, lcid ∈ lcids ↔ lcid ∈ read := by
  simp only [writeLcids, Option.bind_eq_bind, Option.bind_eq_some_iff] at h
  obtain ⟨rows, hrows, read, hread, h⟩ := h
  split_ifs at h with hunique
  cases h
  have hmem : ∀ lcid, lcid ∈ read.insertionSort (fun a b => a.value ≤ b.value) ↔ lcid ∈ read := fun _ =>
    List.mem_insertionSort _
  refine ⟨?_, rows, read, hrows, mapM_eq_some_iff.mp hread, hmem⟩
  have hnodup : ((read.insertionSort fun a b => a.value ≤ b.value).map fun lcid => lcid.value.toNat).Nodup := by
    have hmapped := hunique.1.map (fun _ _ heq => UInt32.toNat_inj.mp heq)
    rwa [List.map_map] at hmapped
  have hlength := length_le_of_nodup hnodup 1025 (2 ^ 32) fun value hvalue => by
    obtain ⟨lcid, hlcid, rfl⟩ := List.mem_map.mp hvalue
    obtain ⟨row, -, hrow⟩ := exists_mem_of_forall₂ (mapM_eq_some_iff.mp hread) ((hmem lcid).mp hlcid)
    exact ⟨UInt32.le_iff_toNat_le.mp (readLcid_eq_some hrow).2, lcid.value.toNat_lt⟩
  rw [List.length_map] at hlength
  omega

theorem mem_epidIndices_iff {builds : List ParsedHostBuild} {place : ℕ} :
    place ∈ epidIndices builds ↔ ∃ build, builds[place]? = some build ∧ build.useForEpid := by
  simp only [epidIndices, List.mem_map, List.mem_filter, Prod.exists, exists_eq_right, List.mem_zipIdx_iff_getElem?]

theorem nodup_epidIndices (builds : List ParsedHostBuild) : (epidIndices builds).Nodup := by
  have hplaces : (builds.zipIdx.map Prod.snd).Nodup := by
    rw [List.zipIdx_map_snd]
    exact List.nodup_range'
  exact (List.filter_sublist.map Prod.snd).nodup hplaces

/-- Every build that an identity may claim has a place. -/
theorem writeHostBuilds_eq_some {hostBuilds : List HostBuild} {epidHostBuilds : List UInt16}
    (h : writeHostBuilds document = some (hostBuilds, epidHostBuilds)) :
    epidHostBuilds.length < 2 ^ 32 ∧
      (∀ build ∈ hostBuilds, build.useForEpid → ∃ position < epidHostBuilds.length,
        ((epidHostBuilds[position]?).bind fun index => hostBuilds[index.toNat]?) = some build) ∧
      ∃ rows read, document.hostBuild = some rows ∧
        List.Forall₂ (fun row parsed => readHostBuild row = some parsed) rows read ∧
        ∀ build, build ∈ hostBuilds ↔ ∃ parsed ∈ read, parsed.toHostBuild = build := by
  simp only [writeHostBuilds, Option.bind_eq_bind, Option.bind_eq_some_iff] at h
  obtain ⟨rows, hrows, read, hread, h⟩ := h
  generalize hsorted : read.insertionSort (fun a b => a.build ≤ b.build) = sorted at h
  split_ifs at h with hall
  obtain ⟨-, -, hsixteen⟩ := hall
  cases h
  have hmem : ∀ parsed, parsed ∈ sorted ↔ parsed ∈ read := fun _ => hsorted ▸ List.mem_insertionSort _
  refine ⟨?_, ?_, rows, read, hrows, mapM_eq_some_iff.mp hread, fun build => ?_⟩
  · have hlength := length_le_of_nodup (nodup_epidIndices sorted) 0 _ fun place hplace => ⟨place.zero_le, hsixteen place hplace⟩
    rw [List.length_map]
    omega
  · intro build hbuild huse
    obtain ⟨parsed, hparsed, rfl⟩ := List.mem_map.mp hbuild
    obtain ⟨place, hplace⟩ := List.mem_iff_getElem?.mp hparsed
    have hindex : place ∈ epidIndices sorted := mem_epidIndices_iff.mpr ⟨parsed, hplace, huse⟩
    have hword : (UInt16.ofNat place).toNat = place := UInt16.toNat_ofNat_of_lt' (hsixteen place hindex)
    obtain ⟨position, hposition⟩ := List.mem_iff_getElem?.mp (List.mem_map_of_mem (f := UInt16.ofNat) hindex)
    refine ⟨position, (List.getElem?_eq_some_iff.mp hposition).1, ?_⟩
    rw [hposition, Option.bind_some, hword, List.getElem?_map, hplace, Option.map_some]
  · simp only [List.mem_map, hmem]

theorem compile_eq_some {compiled : Compiled} (h : compile document = some compiled) :
    generate document.toDocument = some compiled.toCatalogue ∧
      writeHostBuilds document = some (compiled.hostBuilds, compiled.epidHostBuilds) ∧
      writeLcids document = some compiled.lcids := by
  simp only [compile, Option.bind_eq_bind, Option.bind_eq_some_iff] at h
  obtain ⟨catalogue, hcatalogue, ⟨hostBuilds, epidHostBuilds⟩, hbuilds, gvlks, -, lcids, hlcids, h⟩ := h
  split_ifs at h
  cases h
  exact ⟨hcatalogue, hbuilds, hlcids⟩

end

/-- A release date that is compiled is a date of the calendar. -/
theorem ParsedHostBuild.releaseDate_toHostBuild {row : HostBuildRow} {parsed : ParsedHostBuild}
    (h : readHostBuild row = some parsed) {release : Date} (hrelease : parsed.toHostBuild.releaseDate = some release) :
    release.Valid ∧ ∃ text date, row.releaseDate = some text ∧ parseDate text = some date ∧ release.year = date.year := by
  obtain ⟨-, hread, -⟩ := readHostBuild_eq_some h
  simp only [toHostBuild, Option.bind_eq_some_iff] at hrelease
  obtain ⟨date, hdate, hnew⟩ := hrelease
  have hsame : release = ⟨date.year, date.month, date.day⟩ := by
    rw [Date.new] at hnew
    split_ifs at hnew
    exact (Option.some.inj hnew).symm
  refine ⟨by rw [Date.Valid, hsame, hnew, hsame], ?_⟩
  rw [hdate] at hread
  cases htext : row.releaseDate with
  | none =>
    rw [htext] at hread
    cases hread
  | some text =>
    rw [htext, readReleaseDate, Option.map_eq_some_iff] at hread
    obtain ⟨parsedDate, hparsed, hsome⟩ := hread
    cases hsome
    exact ⟨text, date, rfl, hparsed, by rw [hsame]⟩

end Kmsrs.Db
