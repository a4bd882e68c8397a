import Kmsrs.Db.Tables

/-! The build of the tables from the committed document. A row is what the document
parser makes of it: a field that is absent or of another type is `none`. Reading a
field that is required, and every failed assertion, stops the build. The host
builds, locales and setup keys are other tables of the same document. -/

namespace Kmsrs.Db

open Kmsrs.Kms Kmsrs.Sorted

/-! ### The document -/

structure ApplicationRow where
  guid : Option String
  name : Option String

structure KeyBlockRow where
  start : Option ℤ
  stop : Option ℤ

structure ProductRow where
  activationId : Option String
  groupId : Option ℤ
  description : Option String
  editionId : Option String
  keyType : Option String
  application : Option String
  countedIds : Option (List (Option String))
  keyBlocks : Option (List KeyBlockRow)

structure Document where
  application : Option (List ApplicationRow)
  product : Option (List ProductRow)

/-! ### Reading values -/

def hexDigit (digit : Char) : Option ℕ :=
  if '0' ≤ digit ∧ digit ≤ '9' then some (digit.toNat - '0'.toNat)
  else if 'a' ≤ digit ∧ digit ≤ 'f' then some (digit.toNat - 'a'.toNat + 10)
  else if 'A' ≤ digit ∧ digit ≤ 'F' then some (digit.toNat - 'A'.toNat + 10)
  else none

/-- `u8::from_str_radix` on two digits; the first may be a plus sign. -/
def hexByte (high low : Char) : Option UInt8 := do
  let low ← hexDigit low
  if high = '+' then some (.ofNat low)
  else
    let high ← hexDigit high
    some (.ofNat (16 * high + low))

def hexBytes : List Char → Option (List UInt8)
  | [] => some []
  | [_] => none
  | high :: low :: rest => do
    let byte ← hexByte high low
    let bytes ← hexBytes rest
    some (byte :: bytes)

/-- Thirty-two digits, whatever hyphens stand between them. -/
def parseGuid (text : String) : Option Guid := do
  let bytes ← hexBytes (text.toList.filter (· ≠ '-'))
  if h : bytes.length = 16 then some ⟨bytes.toArray, h⟩ else none

def tryFromU32 (value : ℤ) : Option UInt32 :=
  if 0 ≤ value ∧ value < 2 ^ 32 then some (.ofNat value.toNat) else none

/-! ### Reading rows -/

/-- A product row, read. -/
structure ParsedProduct where
  activationId : Guid
  groupId : UInt32
  description : String
  editionId : String
  keyType : String
  application : Option Guid
  countedIds : List Guid
  keyBlocks : List KeyBlock

def readApplication (row : ApplicationRow) : Option Application := do
  let guid ← row.guid
  let guid ← parseGuid guid
  let name ← row.name
  some ⟨guid, name⟩

def readApplications (document : Document) : Option (List Application) := do
  let rows ← document.application
  let applications ← rows.mapM readApplication
  let applications := applications.insertionSort fun a b => rank a.guid ≤ rank b.guid
  if (applications.map Application.guid).Nodup ∧ applications.length ≠ 0 then some applications else none

def readKeyBlock (row : KeyBlockRow) : Option KeyBlock := do
  let start ← row.start
  let stop ← row.stop
  some ⟨← tryFromU32 start, ← tryFromU32 stop⟩

/-- Sorted, without repeats, none of them backwards. -/
def readKeyBlocks (row : ProductRow) : Option (List KeyBlock) := do
  let blocks ← (row.keyBlocks.getD []).mapM readKeyBlock
  let blocks := dropRepeats (blocks.insertionSort fun a b =>
    toLex (a.start.toNat, a.stop.toNat) ≤ toLex (b.start.toNat, b.stop.toNat))
  if ∀ block ∈ blocks, block.start ≤ block.stop then some blocks else none

/-- The application of a row, if it names one; it has to be in the table. -/
def readProductApplication (row : ProductRow) (applications : List Application) : Option (Option Guid) :=
  match row.application with
  | none => some none
  | some text => do
    let application ← parseGuid text
    if application ∈ applications.map Application.guid then some (some application) else none

def readProduct (applications : List Application) (row : ProductRow) : Option ParsedProduct := do
  let activationText ← row.activationId
  let groupId ← row.groupId
  let groupId ← tryFromU32 groupId
  -- a group of zero is not a group
  if groupId = 0 then none
  else
    let application ← readProductApplication row applications
    let countedIds ← (row.countedIds.getD []).mapM fun value => value.bind parseGuid
    let keyBlocks ← readKeyBlocks row
    let activationId ← parseGuid activationText
    let description ← row.description
    let editionId ← row.editionId
    let keyType ← row.keyType
    some { activationId, groupId, description, editionId, keyType, application, countedIds, keyBlocks }

def readProducts (document : Document) (applications : List Application) : Option (List ParsedProduct) := do
  let rows ← document.product
  let products ← rows.mapM (readProduct applications)
  let products := products.insertionSort fun a b => rank a.activationId ≤ rank b.activationId
  if (products.map ParsedProduct.activationId).Nodup then some products else none

/-! ### Writing tables -/

/-- A key type that is not known stops the build. -/
def keyKind : String → Option KeyKind
  | "Volume:CSVLK" => some .kmsHost
  | "Volume:GVLK" => some .kmsClient
  | "Volume:MAK" => some .multipleActivation
  | "Retail" => some .retail
  | "Retail:TB:Eval" => some .evaluation
  | "OEM:DM" | "OEM:NONSLP" | "OEM:SLP" | "OEM:COA" => some .originalEquipment
  | "VT:IA" | "PGS:TB" => some .other
  | _ => none

namespace ParsedProduct

def isHost (product : ParsedProduct) : Bool := product.keyType = "Volume:CSVLK"

def toProduct (product : ParsedProduct) : Option Product := do
  let kind ← keyKind product.keyType
  some { product with kind }

def toCsvlk (product : ParsedProduct) : Csvlk := { product with }

end ParsedProduct

def writeProducts (products : List ParsedProduct) : Option (List Product) :=
  products.mapM ParsedProduct.toProduct

/-- The start of the first block that begins before the one before it ends. -/
def blocksOverlap (previousEnd : Option UInt32) : List KeyBlock → Option UInt32
  | [] => none
  | block :: rest =>
    if previousEnd.any fun previous => block.start ≤ previous then some block.start
    else blocksOverlap (some block.stop) rest

/-- The host keys among the products, each with blocks to draw a key id from. -/
def writeCsvlks (products : List ParsedProduct) : Option (List Csvlk) :=
  let csvlks := products.filter ParsedProduct.isHost
  if ∀ csvlk ∈ csvlks, csvlk.keyBlocks ≠ [] ∧ blocksOverlap none csvlk.keyBlocks = none then
    some (csvlks.map ParsedProduct.toCsvlk)
  else none

/-- The place of every host key. -/
def csvlkIndex (products : List ParsedProduct) : List (Guid × UInt16) :=
  (products.filter ParsedProduct.isHost).mapIdx fun index product => (product.activationId, .ofNat index)

/-- Every product counted, with the place of the host key that counts it. -/
def countedPairs (products : List ParsedProduct) : List (Guid × UInt16) :=
  products.flatMap fun product =>
    match valueOf (csvlkIndex products) product.activationId with
    | none => []
    | some index => product.countedIds.map fun counted => (counted, index)

def writeCountedIds (products : List ParsedProduct) : Option (List CountedId) :=
  -- a place is written in sixteen bits
  if 2 ^ 16 < (products.filter ParsedProduct.isHost).length then none
  else
    some ((groups rank (countedPairs products)).map fun (guid, indices) =>
      ⟨guid, dropRepeats (indices.insertionSort fun a b => a.toNat ≤ b.toNat)⟩)

def generate (document : Document) : Option Catalogue := do
  let applications ← readApplications document
  let parsed ← readProducts document applications
  let products ← writeProducts parsed
  let csvlks ← writeCsvlks parsed
  let countedIds ← writeCountedIds parsed
  let tables : Tables := { applications, products, csvlks, countedIds }
  if h : tables.Asserted ∧ tables.csvlks ≠ [] then some { tables with asserted := h.1, csvlks_ne_nil := h.2 }
  else none

/-! ### What is built -/

/-- The tables come from one list of products with different ids. -/
theorem generate_eq_some {document : Document} {catalogue : Catalogue} (h : generate document = some catalogue) :
    ∃ parsed : List ParsedProduct, (parsed.map ParsedProduct.activationId).Nodup ∧
      catalogue.csvlks = (parsed.filter ParsedProduct.isHost).map ParsedProduct.toCsvlk ∧
      writeCountedIds parsed = some catalogue.countedIds := by
  simp only [generate, Option.bind_eq_bind, Option.bind_eq_some_iff] at h
  obtain ⟨applications, -, parsed, hparsed, products, -, csvlks, hcsvlks, countedIds, hcounted, h⟩ := h
  split_ifs at h
  cases h
  refine ⟨parsed, ?_, ?_, hcounted⟩
  · simp only [readProducts, Option.bind_eq_bind, Option.bind_eq_some_iff] at hparsed
    obtain ⟨rows, -, read, -, hsorted⟩ := hparsed
    split_ifs at hsorted with hnodup
    cases hsorted
    exact hnodup
  · rw [writeCsvlks] at hcsvlks
    split_ifs at hcsvlks
    exact (Option.some.inj hcsvlks).symm

section
variable {products : List ParsedProduct}

/-- The index of ids gives a host key its place. -/
theorem csvlkIndex_eq_some_iff (hnodup : (products.map ParsedProduct.activationId).Nodup)
    (hfew : (products.filter ParsedProduct.isHost).length ≤ 2 ^ 16) {product : ParsedProduct}
    (hproduct : product ∈ products) {index : UInt16} :
    valueOf (csvlkIndex products) product.activationId = some index ↔
      (products.filter ParsedProduct.isHost)[index.toNat]? = some product := by
  have hids : (csvlkIndex products).map Prod.fst = (products.filter ParsedProduct.isHost).map ParsedProduct.activationId := by
    refine List.ext_getElem (by simp [csvlkIndex]) fun i _ _ => ?_
    simp [csvlkIndex]
  have hhosts : ((products.filter ParsedProduct.isHost).map ParsedProduct.activationId).Nodup :=
    (List.filter_sublist.map _).nodup hnodup
  rw [valueOf_eq_some_iff (hids ▸ hhosts), csvlkIndex, List.mem_mapIdx]
  constructor
  · rintro ⟨i, hi, hentry⟩
    obtain ⟨hid, rfl⟩ := Prod.mk.inj hentry
    have hplace : (UInt16.ofNat i).toNat = i := UInt16.toNat_ofNat_of_lt' (Nat.lt_of_lt_of_le hi hfew)
    have hhost := List.getElem_mem hi
    have hsame := List.inj_on_of_nodup_map hnodup (List.mem_filter.mp hhost).1 hproduct hid
    rw [hplace, List.getElem?_eq_getElem hi, hsame]
  · intro hplace
    obtain ⟨hi, hhost⟩ := List.getElem?_eq_some_iff.mp hplace
    exact ⟨index.toNat, hi, by rw [hhost, UInt16.ofNat_toNat]⟩

theorem mem_countedPairs_iff (hnodup : (products.map ParsedProduct.activationId).Nodup)
    (hfew : (products.filter ParsedProduct.isHost).length ≤ 2 ^ 16) {counted : Guid} {index : UInt16} :
    (counted, index) ∈ countedPairs products ↔
      ∃ product, (products.filter ParsedProduct.isHost)[index.toNat]? = some product ∧ counted ∈ product.countedIds := by
  rw [countedPairs, List.mem_flatMap]
  constructor
  · rintro ⟨product, hproduct, hpair⟩
    cases hindex : valueOf (csvlkIndex products) product.activationId with
    | none => simp [hindex] at hpair
    | some place =>
      simp only [hindex, List.mem_map, Prod.mk.injEq] at hpair
      obtain ⟨counted, hcounted, rfl, rfl⟩ := hpair
      exact ⟨product, (csvlkIndex_eq_some_iff hnodup hfew hproduct).mp hindex, hcounted⟩
  · rintro ⟨product, hplace, hcounted⟩
    have hproduct : product ∈ products := (List.mem_filter.mp (List.mem_of_getElem? hplace)).1
    refine ⟨product, hproduct, ?_⟩
    rw [(csvlkIndex_eq_some_iff hnodup hfew hproduct).mpr hplace]
    exact List.mem_map_of_mem hcounted

end

/-- What is found for a counted id: the places pushed under it, in order and once each. -/
theorem csvlksCounting_eq {parsed : List ParsedProduct} {tables : Tables}
    (h : writeCountedIds parsed = some tables.countedIds) (counted : Guid) :
    (parsed.filter ParsedProduct.isHost).length ≤ 2 ^ 16 ∧ tables.csvlksCounting counted =
      dropRepeats (((valueOf (groups rank (countedPairs parsed)) counted).getD []).insertionSort
        fun a b => a.toNat ≤ b.toNat) := by
  rw [writeCountedIds] at h
  split_ifs at h with hmany
  have hincreasing := increasing_groups rank_injective (countedPairs parsed)
  refine ⟨Nat.le_of_not_lt hmany, ?_⟩
  rw [Tables.csvlksCounting, ← Option.some.inj h, lookup_map]
  rw [← hincreasing.lookup_valueOf rank_injective]
  cases lookup (fun entry : Guid × List UInt16 => rank entry.1) (groups rank (countedPairs parsed)) (rank counted) with
  | none => rfl
  | some entry => rfl

/-- The counted ids of a built catalogue agree with its host keys. -/
theorem mem_csvlksCounting_iff {document : Document} {catalogue : Catalogue}
    (h : generate document = some catalogue) (counted : Guid) (index : UInt16) :
    index ∈ catalogue.csvlksCounting counted ↔
      ∃ csvlk, catalogue.csvlkAt index = some csvlk ∧ counted ∈ csvlk.countedIds := by
  obtain ⟨parsed, hnodup, hcsvlks, hwritten⟩ := generate_eq_some h
  obtain ⟨hfew, hcounting⟩ := csvlksCounting_eq hwritten counted
  rw [hcounting, mem_dropRepeats, List.mem_insertionSort, valueOf_groups rank_injective]
  simp only [List.mem_map, List.mem_filter, decide_eq_true_eq, Prod.exists, exists_eq_right,
    mem_countedPairs_iff hnodup hfew]
  rw [Tables.csvlkAt, hcsvlks, List.getElem?_map]
  constructor
  · rintro ⟨product, hplace, hcounted⟩
    exact ⟨product.toCsvlk, by rw [hplace]; rfl, hcounted⟩
  · rintro ⟨csvlk, hplace, hcounted⟩
    obtain ⟨product, hproduct, rfl⟩ := Option.map_eq_some_iff.mp hplace
    exact ⟨product, hproduct, hcounted⟩

/-- The places are in order, and each is there once. -/
theorem increasing_csvlksCounting {document : Document} {catalogue : Catalogue}
    (h : generate document = some catalogue) (counted : Guid) :
    Increasing UInt16.toNat (catalogue.csvlksCounting counted) := by
  obtain ⟨parsed, -, -, hwritten⟩ := generate_eq_some h
  rw [(csvlksCounting_eq hwritten counted).2]
  refine increasing_dropRepeats (fun _ _ => UInt16.toNat_inj.mp) (List.pairwise_map.mpr ?_)
  exact List.pairwise_insertionSort (fun a b : UInt16 => a.toNat ≤ b.toNat) _

/-- Every host key has a place of sixteen bits. -/
theorem length_csvlks_le {document : Document} {catalogue : Catalogue} (h : generate document = some catalogue) :
    catalogue.csvlks.length ≤ 2 ^ 16 := by
  obtain ⟨parsed, -, hcsvlks, hwritten⟩ := generate_eq_some h
  rw [writeCountedIds] at hwritten
  split_ifs at hwritten with hmany
  rw [hcsvlks, List.length_map]
  exact Nat.le_of_not_lt hmany

end Kmsrs.Db
