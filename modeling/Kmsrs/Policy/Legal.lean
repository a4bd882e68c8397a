import Kmsrs.Db.DayCount
import Kmsrs.Policy.Startup
import Kmsrs.Policy.Uniform

/-! What is drawn from the legal values. A key id is counted off across the blocks of its
host key, which lie apart; a date is counted off from the day of the release. Each legal value
is reached by one offset, so the draw is as uniform as that of the offset. -/

namespace Kmsrs.Policy

open Kms Db Draw

/-! ### Key ids -/

/-- The ids of all blocks. -/
def keyIds (csvlk : Csvlk) : Set ℕ := {keyId | ∃ block ∈ csvlk.keyBlocks, block.contains keyId}

/-- The id of an offset, or the first of all where no block has it. -/
def keyOf (csvlk : Csvlk) (offset : ℕ) : Option ℕ :=
  (keyAt csvlk.keyBlocks offset).or (csvlk.keyBlocks.head?.map fun block => block.start.toNat)

/-- Every block begins after those before it. -/
theorem pairwise_of_blocksOverlap {blocks : List KeyBlock} {previous : Option UInt32} (h : blocksOverlap previous blocks = none)
    (hforward : ∀ block ∈ blocks, block.start ≤ block.stop) :
    (∀ stop, previous = some stop → ∀ block ∈ blocks, stop < block.start) ∧
      blocks.Pairwise fun block later => block.stop < later.start := by
  induction blocks generalizing previous with
  | nil => exact ⟨fun _ _ => List.forall_mem_nil _, .nil⟩
  | cons block blocks ih =>
    rw [List.forall_mem_cons] at hforward
    rw [blocksOverlap] at h
    split_ifs at h with hbefore
    obtain ⟨hlater, hpairwise⟩ := ih h hforward.2
    refine ⟨?_, .cons (hlater block.stop rfl) hpairwise⟩
    rintro stop rfl
    have hfirst : stop < block.start := by simpa using hbefore
    refine List.forall_mem_cons.mpr ⟨hfirst, fun later hmem => ?_⟩
    have hblock := hforward.1
    have hnext := hlater block.stop rfl later hmem
    rw [UInt32.lt_iff_toNat_lt] at hfirst hnext ⊢
    rw [UInt32.le_iff_toNat_le] at hblock
    omega

section
variable {blocks : List KeyBlock} (hforward : ∀ block ∈ blocks, block.start ≤ block.stop)
  (hsizes : (blocks.map KeyBlock.size).sum ≤ 2 ^ 32 - 1)
include hforward hsizes

/-- No count saturates. -/
theorem keyCount_eq {block : KeyBlock} (h : block ∈ blocks) : block.keyCount = block.size := by
  have hfirst := UInt32.le_iff_toNat_le.mp (hforward block h)
  have hle := List.single_le_sum (fun _ _ => Nat.zero_le _) _ (List.mem_map_of_mem (f := KeyBlock.size) h)
  rw [KeyBlock.size] at hle ⊢
  rw [KeyBlock.keyCount]
  omega

theorem map_keyCount_eq : blocks.map KeyBlock.keyCount = blocks.map KeyBlock.size :=
  List.map_congr_left fun _ h => keyCount_eq hforward hsizes h

end

/-- An offset is in the first block, or so far into the others. -/
theorem keyAt_cons_eq_some_iff {block : KeyBlock} {blocks : List KeyBlock} {offset keyId : ℕ} :
    keyAt (block :: blocks) offset = some keyId ↔
      (offset < block.keyCount ∧ keyId = min (2 ^ 32 - 1) (block.start.toNat + offset)) ∨
        (block.keyCount ≤ offset ∧ keyAt blocks (offset - block.keyCount) = some keyId) := by
  rw [keyAt]
  split_ifs with hhere
  · rw [Option.some.injEq]
    constructor
    · rintro rfl
      exact .inl ⟨hhere, rfl⟩
    · rintro (⟨-, rfl⟩ | ⟨hbeyond, -⟩)
      · rfl
      · exact absurd hhere (Nat.not_lt_of_le hbeyond)
  · constructor
    · exact fun hkey => .inr ⟨Nat.le_of_not_lt hhere, hkey⟩
    · rintro (⟨hlt, -⟩ | ⟨-, hkey⟩)
      · exact absurd hlt hhere
      · exact hkey

/-- Every offset below the number of the ids has one. -/
theorem exists_keyAt_of_lt {blocks : List KeyBlock} {offset : ℕ} (h : offset < (blocks.map KeyBlock.keyCount).sum) :
    ∃ keyId, keyAt blocks offset = some keyId := by
  induction blocks generalizing offset with
  | nil => simp at h
  | cons block blocks ih =>
    rw [List.map_cons, List.sum_cons] at h
    simp only [keyAt_cons_eq_some_iff]
    by_cases hhere : offset < block.keyCount
    · exact ⟨_, .inl ⟨hhere, rfl⟩⟩
    · obtain ⟨keyId, hkey⟩ := @ih (offset - block.keyCount) (by omega)
      exact ⟨keyId, .inr ⟨Nat.le_of_not_lt hhere, hkey⟩⟩

/-- The id of an offset is in a block. -/
theorem contains_of_keyAt {blocks : List KeyBlock} (hforward : ∀ block ∈ blocks, block.start ≤ block.stop) {offset keyId : ℕ}
    (h : keyAt blocks offset = some keyId) : ∃ block ∈ blocks, block.contains keyId := by
  induction blocks generalizing offset with
  | nil => cases h
  | cons block blocks ih =>
    rw [List.forall_mem_cons] at hforward
    rcases keyAt_cons_eq_some_iff.mp h with ⟨hhere, rfl⟩ | ⟨-, hlater⟩
    · have hfirst := UInt32.le_iff_toNat_le.mp hforward.1
      have hstop := block.stop.toNat_lt
      rw [KeyBlock.keyCount] at hhere
      exact ⟨block, List.mem_cons_self, by omega, by omega⟩
    · obtain ⟨later, hmem, hcontains⟩ := ih hforward.2 hlater
      exact ⟨later, List.mem_cons_of_mem _ hmem, hcontains⟩

/-- Two offsets do not have one id: the blocks lie apart. -/
theorem keyAt_injective {blocks : List KeyBlock} (hforward : ∀ block ∈ blocks, block.start ≤ block.stop)
    (hapart : blocks.Pairwise fun block later => block.stop < later.start) {offset offset' keyId : ℕ}
    (h : keyAt blocks offset = some keyId) (h' : keyAt blocks offset' = some keyId) : offset = offset' := by
  induction blocks generalizing offset offset' with
  | nil => cases h
  | cons block blocks ih =>
    rw [List.forall_mem_cons] at hforward
    obtain ⟨hafter, hrest⟩ := List.pairwise_cons.mp hapart
    have hfirst := UInt32.le_iff_toNat_le.mp hforward.1
    have hstop := block.stop.toNat_lt
    -- an id of the first block is none of the others
    have hapart' : ∀ {place place' : ℕ}, place < block.keyCount → keyId = min (2 ^ 32 - 1) (block.start.toNat + place) →
        keyAt blocks place' ≠ some keyId := by
      intro place place' hplace hkey hlater
      obtain ⟨later, hmem, hcontains, -⟩ := contains_of_keyAt hforward.2 hlater
      have hbetween := UInt32.lt_iff_toNat_lt.mp (hafter later hmem)
      rw [KeyBlock.keyCount] at hplace
      omega
    rcases keyAt_cons_eq_some_iff.mp h with ⟨hhere, hkey⟩ | ⟨hbeyond, hlater⟩ <;>
      rcases keyAt_cons_eq_some_iff.mp h' with ⟨hhere', hkey'⟩ | ⟨hbeyond', hlater'⟩
    · rw [KeyBlock.keyCount] at hhere hhere'
      omega
    · exact absurd hlater' (hapart' hhere hkey)
    · exact absurd hlater (hapart' hhere' hkey')
    · have hplaces := ih hforward.2 hrest hlater hlater'
      omega

/-- The offsets below the number of ids are the ids of the blocks. -/
theorem keyOf_bijOn {csvlk : Csvlk} (hforward : ∀ block ∈ csvlk.keyBlocks, block.start ≤ block.stop)
    (hapart : blocksOverlap none csvlk.keyBlocks = none) (hsizes : (csvlk.keyBlocks.map KeyBlock.size).sum ≤ 2 ^ 32 - 1) :
    keyTotal csvlk = (csvlk.keyBlocks.map KeyBlock.size).sum ∧
      Set.BijOn (keyOf csvlk) (Set.Iio (keyTotal csvlk)) (some '' keyIds csvlk) := by
  have hcounts := map_keyCount_eq hforward hsizes
  have htotal : keyTotal csvlk = (csvlk.keyBlocks.map KeyBlock.size).sum := by
    rw [keyTotal, hcounts]
    exact if_pos (by omega)
  have hpairwise := (pairwise_of_blocksOverlap hapart hforward).2
  have hkey : ∀ {offset}, offset < keyTotal csvlk → ∃ keyId, keyAt csvlk.keyBlocks offset = some keyId ∧
      keyOf csvlk offset = some keyId := by
    intro offset hoffset
    rw [htotal, ← hcounts] at hoffset
    obtain ⟨keyId, hkey⟩ := exists_keyAt_of_lt hoffset
    exact ⟨keyId, hkey, by rw [keyOf, hkey, Option.some_or]⟩
  refine ⟨htotal, ?_, ?_, ?_⟩
  · intro offset hoffset
    obtain ⟨keyId, hkey, hof⟩ := hkey hoffset
    exact ⟨keyId, contains_of_keyAt hforward hkey, hof.symm⟩
  · intro offset hoffset offset' hoffset' hsame
    obtain ⟨keyId, hkeyId, hof⟩ := hkey hoffset
    obtain ⟨keyId', hkeyId', hof'⟩ := hkey hoffset'
    obtain rfl : keyId = keyId' := Option.some.inj (hof.symm.trans (hsame.trans hof'))
    exact keyAt_injective hforward hpairwise hkeyId hkeyId'
  · rintro _ ⟨keyId, ⟨block, hblock, hfirst, hlast⟩, rfl⟩
    obtain ⟨before, after, hblocks⟩ := List.append_of_mem hblock
    have hcount := keyCount_eq hforward hsizes hblock
    have hplace : keyId - block.start.toNat < block.keyCount := by
      rw [hcount, KeyBlock.size]
      omega
    have hoffset : (before.map KeyBlock.keyCount).sum + (keyId - block.start.toNat) < keyTotal csvlk := by
      rw [htotal, ← hcounts, hblocks, List.map_append, List.sum_append, List.map_cons, List.sum_cons]
      omega
    have hstop := block.stop.toNat_lt
    refine ⟨_, hoffset, ?_⟩
    rw [keyOf, hblocks, keyAt_append before hplace, Option.some_or]
    exact congrArg some (by omega)

/-- The id is the one of an offset that is drawn. -/
theorem drawKeyId_eq {ε : Type} (rng : EntropySource ε) {csvlk : Csvlk} (h : keyTotal csvlk ≠ 0) :
    drawKeyId rng csvlk = uniformBelow rng (keyTotal csvlk) >>= fun offset => ofOption (keyOf csvlk offset) := by
  rw [drawKeyId, if_neg h]
  rfl

theorem uniformOver_keyIds {csvlk : Csvlk} (hne : csvlk.keyBlocks ≠ [])
    (hbijective : Set.BijOn (keyOf csvlk) (Set.Iio (keyTotal csvlk)) (some '' keyIds csvlk)) :
    UniformOver (fun rng => drawKeyId rng csvlk) (keyIds csvlk) := by
  have htotal := keyTotal_ne_zero hne
  have hle : keyTotal csvlk ≤ 2 ^ 32 := by
    rw [keyTotal]
    split_ifs with hsmall
    · exact hsmall.le
    · norm_num
  simp only [drawKeyId_eq _ htotal]
  exact (uniformBelow_uniform (Nat.pos_of_ne_zero htotal) hle).uniformOver.bind_ofOption hbijective

/-! ### Dates -/

/-- How far today is after the release. -/
def dateSpan (release today : Date) : ℕ := (saturate (today.daysSinceEpoch - release.daysSinceEpoch)).toNat

/-- The date of an offset. -/
def dateOf (release : Date) (offset : ℕ) : Date :=
  Date.fromDaysSinceEpoch (saturate (release.daysSinceEpoch + if offset < 2 ^ 31 then (offset : ℤ) else 0))

/-- From the release to today, or to the release if it is later. -/
def activationDates (release today : Date) : Set Date := {date | date.Valid ∧ date ∈ Set.Icc release (max release today)}

theorem drawActivationDate_eq {ε : Type} (rng : EntropySource ε) {build : HostBuild} {release : Date}
    (h : build.releaseDate = some release) (today : Date) : drawActivationDate rng build today =
      uniformInInclusiveRange rng 0 (dateSpan release today) >>= fun offset => ofOption (some (dateOf release offset)) := by
  rw [drawActivationDate, h]
  rfl

section
open Calendar
variable {release today : Date} (hrelease : release.Valid) (hfirst : 1601 ≤ release.year) (hlast : release.year ≤ 9999)
include hrelease hfirst hlast

/-- So many days after the release. -/
theorem dateOf_eq {offset : ℕ} (h : offset ≤ 4000000) : dateOf release offset = Date.ofDayNumber (release.dayNumber + offset) := by
  obtain ⟨hdays, hfrom, hto⟩ := year_bounds_of_valid hrelease (by omega) hlast
  have hmost : march 9999 = 3652059 := by decide
  have hleast : march (-1) = -366 := by decide
  rw [dateOf, if_pos (by omega), hdays, Date.saturate_eq (by omega) (by omega), Date.fromDaysSinceEpoch_eq (by omega) (by omega),
    Date.epochShift]
  congr 1
  ring

variable (htoday : today.Valid) (hfirst' : 1601 ≤ today.year) (hlast' : today.year ≤ 9999)
include htoday hfirst' hlast'

theorem dateSpan_eq : (dateSpan release today : ℤ) = max 0 (today.dayNumber - release.dayNumber) ∧ dateSpan release today ≤ 4000000 := by
  obtain ⟨hdays, hfrom, hto⟩ := year_bounds_of_valid hrelease (by omega) hlast
  obtain ⟨hdays', hfrom', hto'⟩ := year_bounds_of_valid htoday (by omega) hlast'
  have hmost : march 9999 = 3652059 := by decide
  have hleast : march (-1) = -366 := by decide
  rw [dateSpan, hdays, hdays', Date.saturate_eq (by omega) (by omega)]
  omega

/-- The offsets up to the span are the dates. -/
theorem dateOf_bijOn : Set.BijOn (dateOf release) (Set.Iic (dateSpan release today)) (activationDates release today) := by
  obtain ⟨hspan, hshort⟩ := dateSpan_eq hrelease hfirst hlast htoday hfirst' hlast'
  refine ⟨?_, ?_, ?_⟩
  · intro offset hoffset
    have hle := Set.mem_Iic.mp hoffset
    have hnumber := Date.dayNumber_ofDayNumber (release.dayNumber + offset)
    have hvalid := Date.valid_ofDayNumber (release.dayNumber + offset)
    rw [dateOf_eq hrelease hfirst hlast (by omega)]
    refine ⟨hvalid, ?_, ?_⟩
    · rw [Date.le_iff_dayNumber_le hrelease hvalid, hnumber]
      omega
    · rw [le_max_iff, Date.le_iff_dayNumber_le hvalid hrelease, Date.le_iff_dayNumber_le hvalid htoday, hnumber]
      omega
  · intro offset hoffset offset' hoffset' hsame
    have hle := Set.mem_Iic.mp hoffset
    have hle' := Set.mem_Iic.mp hoffset'
    rw [dateOf_eq hrelease hfirst hlast (by omega), dateOf_eq hrelease hfirst hlast (by omega)] at hsame
    have hnumbers := congrArg Date.dayNumber hsame
    rw [Date.dayNumber_ofDayNumber, Date.dayNumber_ofDayNumber] at hnumbers
    omega
  · rintro date ⟨hvalid, hlow, hhigh⟩
    rw [Date.le_iff_dayNumber_le hrelease hvalid] at hlow
    rw [le_max_iff, Date.le_iff_dayNumber_le hvalid hrelease, Date.le_iff_dayNumber_le hvalid htoday] at hhigh
    refine ⟨(date.dayNumber - release.dayNumber).toNat, Set.mem_Iic.mpr (by omega), ?_⟩
    rw [dateOf_eq hrelease hfirst hlast (by omega), Int.toNat_of_nonneg (by omega), add_sub_cancel, Date.ofDayNumber_dayNumber hvalid]

end

theorem uniformOver_activationDates {build : HostBuild} {release : Date} (hbuild : build.releaseDate = some release) {today : Date}
    (hspan : dateSpan release today < 2 ^ 32 - 1)
    (hbijective : Set.BijOn (dateOf release) (Set.Iic (dateSpan release today)) (activationDates release today)) :
    UniformOver (fun rng => drawActivationDate rng build today) (activationDates release today) := by
  have huniform : UniformBetween 0 (dateSpan release today) := uniformBetween_of_part (Nat.zero_le _) (by omega) (by omega)
  have hmade : Set.BijOn (fun offset => some (dateOf release offset)) (Set.Icc 0 (dateSpan release today))
      (some '' activationDates release today) := by
    rw [show Set.Icc 0 (dateSpan release today) = Set.Iic (dateSpan release today) from Set.Icc_bot]
    exact (Set.InjOn.bijOn_image (Option.some_injective _).injOn).comp hbijective
  simp only [drawActivationDate_eq _ hbuild]
  exact huniform.bind_ofOption hmade

/-- The key ids of a host key are those of its blocks, each from one offset, and the activation
dates those from the release to today; so both are drawn uniformly. -/
theorem legal_draws_uniform :
    (∀ document compiled, compile document = some compiled → ∀ csvlk ∈ compiled.csvlks,
      (csvlk.keyBlocks.map KeyBlock.size).sum ≤ 2 ^ 32 - 1 →
        keyTotal csvlk = (csvlk.keyBlocks.map KeyBlock.size).sum ∧
        Set.BijOn (keyOf csvlk) (Set.Iio (keyTotal csvlk)) (some '' keyIds csvlk) ∧
        UniformOver (fun rng => drawKeyId rng csvlk) (keyIds csvlk)) ∧
    ∀ build release today, build.releaseDate = some release → release.Valid → 1601 ≤ release.year → release.year ≤ 9999 →
      today.Valid → 1601 ≤ today.year → today.year ≤ 9999 →
        Set.BijOn (dateOf release) (Set.Iic (dateSpan release today)) (activationDates release today) ∧
        UniformOver (fun rng => drawActivationDate rng build today) (activationDates release today) := by
  constructor
  · intro document compiled hcompiled csvlk hcsvlk hsizes
    obtain ⟨hne, hforward, hapart⟩ := (checked_of_compile hcompiled).blocks csvlk hcsvlk
    obtain ⟨htotal, hbijective⟩ := keyOf_bijOn hforward hapart hsizes
    exact ⟨htotal, hbijective, uniformOver_keyIds hne hbijective⟩
  · intro build release today hbuild hrelease hfirst hlast htoday hfirst' hlast'
    have hbijective := dateOf_bijOn hrelease hfirst hlast htoday hfirst' hlast'
    have hshort := (dateSpan_eq hrelease hfirst hlast htoday hfirst' hlast').2
    exact ⟨hbijective, uniformOver_activationDates hbuild (by omega) hbijective⟩

theorem tables_serverDocument : (compile (serverDocument 3612)).map (fun compiled =>
    (compiled.csvlks.map fun csvlk => (csvlk.keyBlocks.map KeyBlock.size).sum, compiled.hostBuilds.map HostBuild.releaseDate)) =
      some ([20020000], [some ⟨2024, 11, 1⟩]) := by
  decide +kernel

/-- Twenty million ids of the one host key, and the days from its build's release to the
beginning of 2026. -/
theorem legal_draws_serverDocument : ∃ compiled, compile (serverDocument 3612) = some compiled ∧
    (∃ csvlk ∈ compiled.csvlks, keyTotal csvlk = 20020000 ∧
      Set.BijOn (keyOf csvlk) (Set.Iio 20020000) (some '' keyIds csvlk) ∧
      UniformOver (fun rng => drawKeyId rng csvlk) (keyIds csvlk)) ∧
    ∃ build ∈ compiled.hostBuilds,
      Set.BijOn (dateOf ⟨2024, 11, 1⟩) (Set.Iic 426) (activationDates ⟨2024, 11, 1⟩ ⟨2026, 1, 1⟩) ∧
      UniformOver (fun rng => drawActivationDate rng build ⟨2026, 1, 1⟩) (activationDates ⟨2024, 11, 1⟩ ⟨2026, 1, 1⟩) := by
  obtain ⟨compiled, hcompiled, htables⟩ := Option.map_eq_some_iff.mp tables_serverDocument
  obtain ⟨hsizes, hreleases⟩ := Prod.mk.inj htables
  obtain ⟨csvlk, _, hcsvlks, hsize, -⟩ := List.map_eq_cons_iff.mp hsizes
  obtain ⟨build, _, hbuilds, hrelease, -⟩ := List.map_eq_cons_iff.mp hreleases
  obtain ⟨hkeys, hdates⟩ := legal_draws_uniform
  have hcsvlk : csvlk ∈ compiled.csvlks := hcsvlks ▸ List.mem_cons_self
  obtain ⟨htotal, hbijective, huniform⟩ := hkeys _ _ hcompiled csvlk hcsvlk (by rw [hsize]; norm_num)
  rw [htotal, hsize] at hbijective
  have hspan : dateSpan ⟨2024, 11, 1⟩ ⟨2026, 1, 1⟩ = 426 := by decide +kernel
  have hdate := hdates build ⟨2024, 11, 1⟩ ⟨2026, 1, 1⟩ hrelease (by decide) (by norm_num) (by norm_num) (by decide) (by norm_num)
    (by norm_num)
  rw [hspan] at hdate
  exact ⟨compiled, hcompiled, ⟨csvlk, hcsvlk, htotal.trans hsize, hbijective, huniform⟩, build, hbuilds ▸ List.mem_cons_self,
    hdate⟩

end Kmsrs.Policy
