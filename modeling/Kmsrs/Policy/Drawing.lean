import Kmsrs.Kms.Exchange
import Kmsrs.Lib.Draw
import Kmsrs.Policy.Epid
import Kmsrs.Policy.Identity
import Mathlib.Data.Nat.Size

/-! Drawing the host's identity at start-up. The numbers are drawn by rejection, from a
mask that is less than twice as wide as they are. -/

namespace Kmsrs.Policy

open Kms Db Draw

/-! ### Numbers -/

section
variable {ε : Type} (rng : EntropySource ε)

/-- A word of 32 bits. -/
def nextU32 : DrawStep ε ℕ := fun entropy =>
  let (bytes, entropy) := rng.fill entropy 4
  (bytes.map fun bytes => (Layout.u32.decode bytes.toList).toNat, entropy)

/-- The mask of the bits that a number below the bound can have. -/
def maskFor (bound : ℕ) : ℕ :=
  let leadingZeros := 32 - (bound - 1).size
  let significantBits := 32 - leadingZeros
  if 32 ≤ significantBits then 2 ^ 32 - 1 else 2 ^ significantBits - 1

def candidate (bound word : ℕ) : Option ℕ :=
  if word &&& maskFor bound < bound then some (word &&& maskFor bound) else none

def uniformBelow (bound : ℕ) : Draw ε ℕ := retry (nextU32 rng) (candidate bound)

def uniformInInclusiveRange (low high : ℕ) : Draw ε ℕ :=
  if high < low then pure low
  else
    let bound := min (2 ^ 32 - 1) (high - low + 1)
    -- the bound is never zero: the addition saturates
    if bound = 0 then once (nextU32 rng)
    else do
      let value ← uniformBelow rng bound
      pure (min (2 ^ 32 - 1) (low + value))

/-! ### Fields -/

/-- One of so many entries of a table. -/
def drawEntry {α : Type} (count : ℕ) (entry : ℕ → Option α) : Draw ε α :=
  let count := if count < 2 ^ 32 then count else 1
  if count = 0 then fail
  else do
    let index ← uniformBelow rng count
    ofOption (entry index)

def drawLcid (compiled : Compiled) : Draw ε Lcid := drawEntry rng compiled.lcids.length compiled.lcidAt

def drawHostBuild (compiled : Compiled) : Draw ε HostBuild :=
  drawEntry rng compiled.epidHostBuilds.length compiled.epidHostBuildAt

/-- The key id so far into the blocks. -/
def keyAt : List KeyBlock → ℕ → Option ℕ
  | [], _ => none
  | block :: blocks, offset =>
    if offset < block.keyCount then some (min (2 ^ 32 - 1) (block.start.toNat + offset))
    else keyAt blocks (offset - block.keyCount)

def keyTotal (csvlk : Csvlk) : ℕ :=
  let total := (csvlk.keyBlocks.map KeyBlock.keyCount).sum
  if total < 2 ^ 32 then total else 2 ^ 32 - 1

/-- Across all blocks of the key. -/
def drawKeyId (csvlk : Csvlk) : Draw ε ℕ :=
  if keyTotal csvlk = 0 then fail
  else do
    let offset ← uniformBelow rng (keyTotal csvlk)
    ofOption ((keyAt csvlk.keyBlocks offset).or (csvlk.keyBlocks.head?.map fun block => block.start.toNat))

/-- Between the build's release and today; on the day of the release if that is later. -/
def drawActivationDate (build : HostBuild) (today : Date) : Draw ε Date :=
  match build.releaseDate with
  | none => fail
  | some release => do
    let span := (saturate (today.daysSinceEpoch - release.daysSinceEpoch)).toNat
    let offset ← uniformInInclusiveRange rng 0 span
    let offset : ℤ := if offset < 2 ^ 31 then offset else 0
    pure (Date.fromDaysSinceEpoch (saturate (release.daysSinceEpoch + offset)))

/-! ### Identities -/

/-- A host key's identity, with what it was made of. -/
structure DrawnGroup extends GroupIdentity where
  keyId : ℕ
  activated : Date

structure DrawnIdentity where
  lcid : Lcid
  build : HostBuild
  groups : List DrawnGroup

def generateGroup (build : HostBuild) (lcid : Lcid) (today : Date) (csvlk : Csvlk) : Draw ε DrawnGroup := do
  let keyId ← drawKeyId rng csvlk
  let activated ← drawActivationDate rng build today
  let hardwareId ← once fun entropy => rng.fill entropy 8
  match EPid.parse (formatEpid build csvlk keyId lcid activated) with
  | .error _ => fail
  | .ok epid => pure { epid, hardwareId, keyId, activated }

def HostIdentity.generate (compiled : Compiled) (today : Date) : Draw ε DrawnIdentity := do
  let lcid ← drawLcid rng compiled
  let build ← drawHostBuild rng compiled
  let groups ← forEach (generateGroup rng build lcid today) compiled.csvlks
  pure { lcid, build, groups }

end

/-! ### What is drawn -/

section
variable {ε : Type} {rng : EntropySource ε}

theorem sure_nextU32 (hworks : rng.Works) : Sure (nextU32 rng) := by
  intro entropy
  obtain ⟨bytes, next, hfill⟩ := hworks entropy 4
  exact ⟨(Layout.u32.decode bytes.toList).toNat, next, by rw [nextU32, hfill]; rfl⟩

theorem candidate_lt {bound word value : ℕ} (h : candidate bound word = some value) : value < bound := by
  rw [candidate] at h
  split_ifs at h with hlt
  rw [← Option.some.inj h]
  exact hlt

theorem maskFor_eq {bound : ℕ} (h : bound ≤ 2 ^ 32) : maskFor bound = 2 ^ (bound - 1).size - 1 := by
  have hsize : (bound - 1).size ≤ 32 := Nat.size_le.mpr (by omega)
  rw [maskFor, show 32 - (32 - (bound - 1).size) = (bound - 1).size by omega]
  split_ifs with hwide
  · rw [show (bound - 1).size = 32 by omega]
  · rfl

/-- The mask leaves the numbers below the bound as they are. -/
theorem candidate_self {bound value : ℕ} (h : value < bound) (hbound : bound ≤ 2 ^ 32) : candidate bound value = some value := by
  have hlt : value < 2 ^ (bound - 1).size := lt_of_le_of_lt (by omega) (Nat.lt_size_self (bound - 1))
  have hkept : value &&& maskFor bound = value := by rw [maskFor_eq hbound, Nat.and_two_pow_sub_one_eq_mod, Nat.mod_eq_of_lt hlt]
  rw [candidate, hkept, if_pos h]

theorem ensures_uniformBelow (hworks : rng.Works) (bound : ℕ) : Ensures (uniformBelow rng bound) (· < bound) :=
  (Ensures.retry (sure_nextU32 hworks) _).mono fun _ ⟨_, hcandidate⟩ => candidate_lt hcandidate

theorem ensures_uniformInInclusiveRange (hworks : rng.Works) (high : ℕ) :
    Ensures (uniformInInclusiveRange rng 0 high) (· ≤ high) := by
  rw [uniformInInclusiveRange, if_neg (by omega), if_neg (by omega)]
  exact (ensures_uniformBelow hworks _).bind fun value hvalue => .pure (by omega)

theorem ensures_drawEntry (hworks : rng.Works) {α : Type} {count : ℕ} {entry : ℕ → Option α} {post : α → Prop}
    (hcount : count ≠ 0) (hentry : ∀ index < count, ∃ a, entry index = some a ∧ post a) :
    Ensures (drawEntry rng count entry) post := by
  rw [drawEntry]
  by_cases hfew : count < 2 ^ 32
  · rw [if_pos hfew, if_neg hcount]
    exact (ensures_uniformBelow hworks count).bind fun index hindex => .ofOption (hentry index hindex)
  · rw [if_neg hfew, if_neg one_ne_zero]
    exact (ensures_uniformBelow hworks 1).bind fun index hindex => .ofOption (hentry index (by omega))

/-- A key id is in a block. -/
theorem keyAt_mem {blocks : List KeyBlock} (hforward : ∀ block ∈ blocks, block.start ≤ block.stop) {offset key : ℕ}
    (h : keyAt blocks offset = some key) : ∃ block ∈ blocks, key ≤ block.stop.toNat := by
  induction blocks generalizing offset with
  | nil => cases h
  | cons block blocks ih =>
    rw [List.forall_mem_cons] at hforward
    obtain ⟨hfirst, hrest⟩ := hforward
    rw [keyAt] at h
    split_ifs at h with hhere
    · refine ⟨block, List.mem_cons_self, ?_⟩
      rw [UInt32.le_iff_toNat_le] at hfirst
      rw [KeyBlock.keyCount] at hhere
      rw [← Option.some.inj h]
      omega
    · obtain ⟨later, hlater, hle⟩ := ih hrest h
      exact ⟨later, List.mem_cons_of_mem _ hlater, hle⟩

/-- So far into the blocks is so far into one of them. -/
theorem keyAt_append (before : List KeyBlock) {block : KeyBlock} {after : List KeyBlock} {place : ℕ} (h : place < block.keyCount) :
    keyAt (before ++ block :: after) ((before.map KeyBlock.keyCount).sum + place) =
      some (min (2 ^ 32 - 1) (block.start.toNat + place)) := by
  induction before with
  | nil => rw [List.nil_append, List.map_nil, List.sum_nil, Nat.zero_add, keyAt, if_pos h]
  | cons first before ih =>
    rw [List.cons_append, List.map_cons, List.sum_cons, keyAt, if_neg (by omega), Nat.add_assoc, Nat.add_sub_cancel_left]
    exact ih

/-- There is something to draw a key id from. -/
theorem keyTotal_ne_zero {csvlk : Csvlk} (hne : csvlk.keyBlocks ≠ []) : keyTotal csvlk ≠ 0 := by
  obtain ⟨block, blocks, hblocks⟩ := List.exists_cons_of_ne_nil hne
  have hpos : 1 ≤ block.keyCount := by
    rw [KeyBlock.keyCount]
    omega
  rw [keyTotal, hblocks, List.map_cons, List.sum_cons]
  split_ifs with hsmall
  · omega
  · norm_num

theorem ensures_drawKeyId (hworks : rng.Works) {csvlk : Csvlk} (hne : csvlk.keyBlocks ≠ [])
    (hforward : ∀ block ∈ csvlk.keyBlocks, block.start ≤ block.stop) :
    Ensures (drawKeyId rng csvlk) fun key => ∃ block ∈ csvlk.keyBlocks, key ≤ block.stop.toNat := by
  rw [drawKeyId, if_neg (keyTotal_ne_zero hne)]
  refine (ensures_uniformBelow hworks _).bind fun offset _ => .ofOption ?_
  cases hkey : keyAt csvlk.keyBlocks offset with
  | some key => exact ⟨key, rfl, keyAt_mem hforward hkey⟩
  | none =>
    obtain ⟨block, blocks, hblocks⟩ := List.exists_cons_of_ne_nil hne
    rw [hblocks] at hforward ⊢
    have hfirst := UInt32.le_iff_toNat_le.mp (hforward block List.mem_cons_self)
    exact ⟨block.start.toNat, rfl, block, List.mem_cons_self, hfirst⟩

/-! ### Dates -/

open Calendar in
theorem year_bounds_of_valid {date : Date} (h : date.Valid) (hpos : 0 ≤ date.year) (hlast : date.year ≤ 9999) :
    date.daysSinceEpoch = date.dayNumber - 719468 ∧ march (-1) + 306 ≤ date.dayNumber ∧
      date.dayNumber < march 9999 + 306 := by
  obtain ⟨_, hmonth, hday, hmost, -⟩ := h.bounds
  have hfirst := Date.dayNumber_lt_iff h (-1)
  have hbefore := (Date.dayNumber_lt_iff h 9999).mpr hlast
  have hmarch : march 9999 = 3652059 := by decide
  refine ⟨?_, by omega, hbefore⟩
  rw [Date.daysSinceEpoch_eq (by omega) (by omega) hmonth hday hmost, min_eq_right (by omega), Date.epochShift]

open Calendar in
/-- Where no date is after the year 9999, neither is the one that is drawn. -/
theorem ensures_drawActivationDate (hworks : rng.Works) {build : HostBuild} {release today : Date}
    (hrelease : build.releaseDate = some release) (hvalid : release.Valid) (hpos : 0 ≤ release.year)
    (hlast : release.year ≤ 9999) (htoday : today.Valid) (hpos' : 0 ≤ today.year) (hlast' : today.year ≤ 9999) :
    Ensures (drawActivationDate rng build today) fun date =>
      0 ≤ date.year ∧ date.year < 10 ^ 4 ∧ date.dayOfYear < 10 ^ 3 := by
  obtain ⟨hdays, hfrom, hto⟩ := year_bounds_of_valid hvalid hpos hlast
  obtain ⟨hdays', hfrom', hto'⟩ := year_bounds_of_valid htoday hpos' hlast'
  have hmost : march 9999 = 3652059 := by decide
  have hleast : march (-1) = -366 := by decide
  rw [drawActivationDate, hrelease]
  refine (ensures_uniformInInclusiveRange hworks _).bind fun offset hoffset => .pure ?_
  rw [hdays, hdays', Date.saturate_eq (by omega) (by omega)] at hoffset
  rw [if_pos (by omega), hdays, Date.saturate_eq (by omega) (by omega), Date.fromDaysSinceEpoch_eq (by omega) (by omega),
    Date.epochShift, show release.dayNumber - 719468 + (offset : ℤ) + 719468 = release.dayNumber + offset by ring]
  have hyear := Date.year_ofDayNumber_le_iff (release.dayNumber + offset) 9999
  have hyear' := Date.year_ofDayNumber_le_iff (release.dayNumber + offset) (-1)
  have hday := @Date.dayOfYear_ofDayNumber (release.dayNumber + offset) (by omega) (by omega)
  omega

/-! ### Ending -/

/-- From every state of the source a number below any bound comes up sooner or later, as it
does from a source that is random. -/
def FairSource (rng : EntropySource ε) : Prop :=
  ∀ bound, 0 < bound → bound < 2 ^ 32 → Fair (nextU32 rng) (candidate bound)

variable (hworks : rng.Works) (hfair : FairSource rng)
include hworks hfair

theorem ends_uniformBelow {bound : ℕ} (hpos : bound ≠ 0) (hlt : bound < 2 ^ 32) : Ends (uniformBelow rng bound) :=
  Ends.retry (sure_nextU32 hworks) (hfair bound (Nat.pos_of_ne_zero hpos) hlt)

theorem ends_uniformInInclusiveRange (low high : ℕ) : Ends (uniformInInclusiveRange rng low high) := by
  rw [uniformInInclusiveRange]
  by_cases hempty : high < low
  · rw [if_pos hempty]
    exact .pure low
  · rw [if_neg hempty, if_neg (by omega)]
    exact (ends_uniformBelow hworks hfair (by omega) (by omega)).bind fun value => .pure _

theorem ends_drawEntry {α : Type} (count : ℕ) (entry : ℕ → Option α) : Ends (drawEntry rng count entry) := by
  rw [drawEntry]
  generalize hbound : (if count < 2 ^ 32 then count else 1) = bound
  have hlt : bound < 2 ^ 32 := by split_ifs at hbound <;> omega
  by_cases hzero : bound = 0
  · rw [if_pos hzero]
    exact .fail
  · rw [if_neg hzero]
    exact (ends_uniformBelow hworks hfair hzero hlt).bind fun index => .ofOption _

theorem ends_drawKeyId (csvlk : Csvlk) : Ends (drawKeyId rng csvlk) := by
  have hlt : keyTotal csvlk < 2 ^ 32 := by
    rw [keyTotal]
    split_ifs with hsmall
    · exact hsmall
    · norm_num
  rw [drawKeyId]
  split_ifs with hzero
  · exact .fail
  · exact (ends_uniformBelow hworks hfair hzero hlt).bind fun offset => .ofOption _

theorem ends_drawActivationDate (build : HostBuild) (today : Date) : Ends (drawActivationDate rng build today) := by
  rw [drawActivationDate]
  split
  · exact .fail
  · exact (ends_uniformInInclusiveRange hworks hfair _ _).bind fun offset => .pure _

theorem ends_generateGroup (build : HostBuild) (lcid : Lcid) (today : Date) (csvlk : Csvlk) :
    Ends (generateGroup rng build lcid today csvlk) := by
  refine (ends_drawKeyId hworks hfair csvlk).bind fun keyId => ?_
  refine (ends_drawActivationDate hworks hfair build today).bind fun activated => ?_
  refine (Ends.once _).bind fun hardwareId => ?_
  split
  · exact .fail
  · exact .pure _

theorem ends_generate (compiled : Compiled) (today : Date) : Ends (HostIdentity.generate rng compiled today) := by
  refine (ends_drawEntry hworks hfair _ _).bind fun lcid => (ends_drawEntry hworks hfair _ _).bind fun build => ?_
  exact (Ends.forEach fun csvlk _ => ends_generateGroup hworks hfair build lcid today csvlk).bind fun groups => .pure _

end

/-! ### Identities without failing -/

section
variable {ε : Type} {rng : EntropySource ε}

/-- An identity's text is the one of its fields. -/
theorem ensures_generateGroup (hworks : rng.Works) {build : HostBuild} {lcid : Lcid} {today release : Date} {csvlk : Csvlk}
    (hrelease : build.releaseDate = some release) (hvalid : release.Valid) (hpos : 0 ≤ release.year)
    (hlast : release.year ≤ 9999) (htoday : today.Valid) (hpos' : 0 ≤ today.year) (hlast' : today.year ≤ 9999)
    (hne : csvlk.keyBlocks ≠ []) (hforward : ∀ block ∈ csvlk.keyBlocks, block.start ≤ block.stop)
    (hkeys : ∀ block ∈ csvlk.keyBlocks, block.stop.toNat < 10 ^ 9) (hplatform : build.platformId.toNat < 10 ^ 5)
    (hgroup : csvlk.groupId.toNat < 10 ^ 5) (hlcid : lcid.value.toNat < 10 ^ 5) :
    Ensures (generateGroup rng build lcid today csvlk) fun group => shaped build (decodeLossy group.epid.units) := by
  refine (ensures_drawKeyId hworks hne hforward).bind fun keyId hkeyId => ?_
  refine (ensures_drawActivationDate hworks hrelease hvalid hpos hlast htoday hpos' hlast').bind fun activated hactivated => ?_
  refine (Ensures.once fun entropy => hworks entropy 8).bind fun hardwareId _ => ?_
  obtain ⟨hyear, hshort, hday⟩ := hactivated
  obtain ⟨block, hblock, hle⟩ := hkeyId
  have hfits : FieldsFit build csvlk keyId lcid activated :=
    ⟨hplatform, hgroup, hle.trans_lt (hkeys block hblock), hlcid, hday, hshort⟩
  obtain ⟨epid, hparse⟩ := exists_parse_formatEpid hyear hfits
  rw [hparse]
  refine .pure ?_
  rw [EPid.decodeLossy_of_parse hparse]
  exact (shaped_formatEpid_iff build csvlk keyId lcid activated hyear).mpr hfits

end

/-! ### Words that are written down -/

/-- A source whose words are written down beforehand, with zeros after them. -/
def script : EntropySource (List ℕ) where
  fill words _ := (some (Vector.ofFn fun i => (Layout.u32.encode (.ofNat (words.headD 0))).getD i 0), words.tail)

theorem works_script : script.Works := fun words _ => ⟨_, words.tail, rfl⟩

theorem nextU32_script (words : List ℕ) : nextU32 script words = (some (UInt32.ofNat (words.headD 0)).toNat, words.tail) := by
  have hbytes : (Vector.ofFn fun i : Fin 4 => (Layout.u32.encode (.ofNat (words.headD 0))).getD i 0).toList =
      Layout.u32.encode (.ofNat (words.headD 0)) := by
    refine List.ext_getElem (by rw [Vector.length_toList, Layout.u32.length_encode]; rfl) fun i hi hi' => ?_
    simp
  rw [nextU32, script]
  simp only [Option.map_some, hbytes, Layout.u32.decode_encode]

/-- After the words come zeros, which are below every bound. -/
theorem fairSource_script : FairSource script := by
  intro bound hpos hlt words
  have hdrop : ∀ n, (fun words => (nextU32 script words).2)^[n] words = words.drop n := by
    intro n
    induction n with
    | zero => rfl
    | succ n ih => rw [Function.iterate_succ_apply', ih, nextU32_script, List.tail_drop]
  refine ⟨words.length, 0, ?_, ?_⟩
  · rw [hdrop, List.drop_length, nextU32_script]
    rfl
  · rw [candidate_self hpos hlt.le]
    rfl

theorem follows_uniformBelow {value bound : ℕ} (h : value < bound) (hbound : bound ≤ 2 ^ 32) :
    Follows [value] (uniformBelow script bound) (· = value) := by
  refine fun rest => .inr ⟨value, ?_, rfl⟩
  have hstep : nextU32 script (value :: rest) = (some value, rest) := by
    rw [nextU32_script, List.headD_cons, UInt32.toNat_ofNat_of_lt' (h.trans_le hbound), List.tail_cons]
  rw [uniformBelow, List.singleton_append, retry, hstep]
  simp only [candidate_self h hbound]

end Kmsrs.Policy
