import Kmsrs.Policy.Drawing

/-! Which documents can give a host its identities. What the build accepts need not fit the
fields of an identity, and what does not fit can be drawn. -/

namespace Kmsrs.Policy

open Kms Db Draw

/-! ### The rule -/

/-- Whatever the source and the day, every host key gets an identity of the documented
shape. -/
structure Identifies (compiled : Compiled) : Prop where
  shaped : ∀ {ε : Type} {rng : EntropySource ε}, rng.Works → ∀ today : Date, today.Valid → 1970 ≤ today.year → today.year ≤ 9999 →
    Ensures (HostIdentity.generate rng compiled today) fun identity =>
      identity.groups.length = compiled.csvlks.length ∧
        ∀ group ∈ identity.groups, shaped identity.build (decodeLossy group.epid.units)
  succeeds : ∀ {ε : Type} {rng : EntropySource ε}, rng.Works → FairSource rng → ∀ today : Date, today.Valid →
    1970 ≤ today.year → today.year ≤ 9999 →
      ∀ entropy, ∃ rounds identity, (HostIdentity.generate rng compiled today rounds entropy).1 = .drawn identity

/-- The rows an identity is drawn from have numbers that fit its fields. -/
structure Fits (document : ProductsDocument) : Prop where
  builds : ∀ rows, document.hostBuild = some rows → ∀ row ∈ rows, row.useForEpid = some true →
    (∀ platform, row.platformId = some platform → platform < 10 ^ 5) ∧
      ∀ text date, row.releaseDate = some text → parseDate text = some date → date.year < 10 ^ 4
  hosts : ∀ rows, document.product = some rows → ∀ row ∈ rows, row.keyType = some "Volume:CSVLK" →
    (∀ group, row.groupId = some group → group < 10 ^ 5) ∧
      ∀ block ∈ row.keyBlocks.getD [], ∀ stop, block.stop = some stop → stop < 10 ^ 9
  locales : ∀ rows, document.lcid = some rows → ∀ row ∈ rows, ∀ value, row.value = some value → value < 10 ^ 5

/-! ### What the build knows -/

structure Checked (compiled : Compiled) : Prop where
  releases : ∀ build ∈ compiled.hostBuilds, ∀ release, build.releaseDate = some release →
    release.Valid ∧ 0 ≤ release.year ∧ release.year < 2 ^ 31
  places : ∀ build ∈ compiled.hostBuilds, build.useForEpid →
    ∃ position < compiled.epidHostBuilds.length, compiled.epidHostBuildAt position = some build
  fewBuilds : compiled.epidHostBuilds.length < 2 ^ 32
  fewLcids : compiled.lcids.length < 2 ^ 32
  blocks : ∀ csvlk ∈ compiled.csvlks, csvlk.keyBlocks ≠ [] ∧ (∀ block ∈ csvlk.keyBlocks, block.start ≤ block.stop) ∧
    blocksOverlap none csvlk.keyBlocks = none

/-- The rows that are compiled fit. -/
structure TablesFit (compiled : Compiled) : Prop where
  builds : ∀ build ∈ compiled.hostBuilds, build.useForEpid → build.platformId.toNat < 10 ^ 5 ∧
    ∀ release, build.releaseDate = some release → release.year < 10 ^ 4
  hosts : ∀ csvlk ∈ compiled.csvlks, csvlk.groupId.toNat < 10 ^ 5 ∧ ∀ block ∈ csvlk.keyBlocks, block.stop.toNat < 10 ^ 9
  lcids : ∀ lcid ∈ compiled.lcids, lcid.value.toNat < 10 ^ 5

section
variable {document : ProductsDocument} {compiled : Compiled}

theorem checked_of_compile (h : compile document = some compiled) : Checked compiled := by
  obtain ⟨hgenerate, hbuilds, hlcids⟩ := compile_eq_some h
  obtain ⟨hfewBuilds, hplaces, rows, read, -, hread, hmem⟩ := writeHostBuilds_eq_some hbuilds
  obtain ⟨applications, productRows, parsed, -, hparsed, hcsvlks, hblocks⟩ := generate_csvlks hgenerate
  refine ⟨?_, hplaces, hfewBuilds, (writeLcids_eq_some hlcids).1, ?_⟩
  · intro build hbuild release hrelease
    obtain ⟨parsed, hparsed, rfl⟩ := (hmem build).mp hbuild
    obtain ⟨row, -, hrow⟩ := exists_mem_of_forall₂ hread hparsed
    obtain ⟨hvalid, text, date, -, hdate, hyear⟩ := ParsedHostBuild.releaseDate_toHostBuild hrow hrelease
    have hlt := year_lt_of_parseDate hdate
    exact ⟨hvalid, by omega, by omega⟩
  · intro csvlk hcsvlk
    obtain ⟨product, hproduct, -, rfl⟩ := (hcsvlks csvlk).mp hcsvlk
    obtain ⟨row, -, hrow⟩ := exists_mem_of_forall₂ hparsed hproduct
    obtain ⟨-, -, hkeyBlocks⟩ := readProduct_eq_some hrow
    exact ⟨(hblocks _ hcsvlk).1, (readKeyBlocks_eq_some hkeyBlocks).1, (hblocks _ hcsvlk).2⟩

theorem drawable_of_epidHostBuildAt {position : ℕ} {build : HostBuild} (h : compiled.epidHostBuildAt position = some build) :
    build ∈ compiled.hostBuilds ∧ build.useForEpid ∧ ∃ release, build.releaseDate = some release := by
  obtain ⟨index, hindex, hbuild⟩ := Option.bind_eq_some_iff.mp h
  obtain ⟨found, hfound, huse, hrelease⟩ := compiled.drawable.2 index (List.mem_of_getElem? hindex)
  obtain rfl := Option.some.inj (hbuild.symm.trans hfound)
  exact ⟨List.mem_of_getElem? hbuild, huse, Option.isSome_iff_exists.mp hrelease⟩

/-! ### From the document to the tables -/

variable (h : compile document = some compiled)
include h

theorem builds_fit_iff :
    (∀ build ∈ compiled.hostBuilds, build.useForEpid → build.platformId.toNat < 10 ^ 5 ∧
      ∀ release, build.releaseDate = some release → release.year < 10 ^ 4) ↔
    ∀ rows, document.hostBuild = some rows → ∀ row ∈ rows, row.useForEpid = some true →
      (∀ platform, row.platformId = some platform → platform < 10 ^ 5) ∧
        ∀ text date, row.releaseDate = some text → parseDate text = some date → date.year < 10 ^ 4 := by
  obtain ⟨-, hplaces, rows, read, hrows, hread, hmem⟩ := writeHostBuilds_eq_some (compile_eq_some h).2.1
  constructor
  · intro hfit rows' hrows' row hrow huse
    obtain rfl := Option.some.inj (hrows.symm.trans hrows')
    obtain ⟨parsed, hparsed, hreadRow⟩ := exists_mem_of_forall₂_left hread hrow
    obtain ⟨hplatform, -, huse'⟩ := readHostBuild_eq_some hreadRow
    have hbuild := (hmem _).mpr ⟨parsed, hparsed, rfl⟩
    have hused : parsed.toHostBuild.useForEpid = true := by
      show parsed.useForEpid = true
      rw [huse', huse]
      rfl
    obtain ⟨hsmall, hyears⟩ := hfit _ hbuild hused
    refine ⟨fun platform hsome => ?_, fun text date htext hdate => ?_⟩
    · have hsmall' : parsed.platformId.toNat < 10 ^ 5 := hsmall
      rw [hplatform] at hsome
      obtain rfl := Option.some.inj hsome
      omega
    · -- the date exists: the build is drawable
      obtain ⟨position, -, hposition⟩ := hplaces _ hbuild hused
      obtain ⟨-, -, release, hrelease⟩ := drawable_of_epidHostBuildAt hposition
      obtain ⟨-, text', date', htext', hdate', hyear⟩ := ParsedHostBuild.releaseDate_toHostBuild hreadRow hrelease
      obtain rfl := Option.some.inj (htext.symm.trans htext')
      obtain rfl := Option.some.inj (hdate.symm.trans hdate')
      have hlt := hyears release hrelease
      omega
  · intro hfit build hbuild huse
    obtain ⟨parsed, hparsed, rfl⟩ := (hmem build).mp hbuild
    obtain ⟨row, hrow, hreadRow⟩ := exists_mem_of_forall₂ hread hparsed
    obtain ⟨hplatform, -, huse'⟩ := readHostBuild_eq_some hreadRow
    have hrowUse : row.useForEpid = some true := by
      have hused : row.useForEpid.getD false = true := huse'.symm.trans huse
      cases huses : row.useForEpid with
      | none =>
        rw [huses] at hused
        cases hused
      | some value =>
        rw [huses] at hused
        exact congrArg some hused
    obtain ⟨hsmall, hyears⟩ := hfit rows hrows row hrow hrowUse
    refine ⟨?_, fun release hrelease => ?_⟩
    · have hlt := hsmall _ hplatform
      show parsed.platformId.toNat < 10 ^ 5
      omega
    · obtain ⟨-, text, date, htext, hdate, hyear⟩ := ParsedHostBuild.releaseDate_toHostBuild hreadRow hrelease
      have hlt := hyears text date htext hdate
      omega

theorem hosts_fit_iff :
    (∀ csvlk ∈ compiled.csvlks, csvlk.groupId.toNat < 10 ^ 5 ∧ ∀ block ∈ csvlk.keyBlocks, block.stop.toNat < 10 ^ 9) ↔
    ∀ rows, document.product = some rows → ∀ row ∈ rows, row.keyType = some "Volume:CSVLK" →
      (∀ group, row.groupId = some group → group < 10 ^ 5) ∧
        ∀ block ∈ row.keyBlocks.getD [], ∀ stop, block.stop = some stop → stop < 10 ^ 9 := by
  obtain ⟨applications, rows, parsed, hrows, hparsed, hcsvlks, -⟩ := generate_csvlks (compile_eq_some h).1
  constructor
  · intro hfit rows' hrows' row hrow hkeyType
    obtain rfl := Option.some.inj (hrows.symm.trans hrows')
    obtain ⟨product, hproduct, hreadRow⟩ := exists_mem_of_forall₂_left hparsed hrow
    obtain ⟨hgroup, htype, hkeyBlocks⟩ := readProduct_eq_some hreadRow
    have hhost : product.isHost = true := by
      rw [hkeyType] at htype
      rw [ParsedProduct.isHost, ← Option.some.inj htype]
      rfl
    obtain ⟨hsmall, hstops⟩ := hfit _ ((hcsvlks _).mpr ⟨product, hproduct, hhost, rfl⟩)
    refine ⟨fun group hsome => ?_, fun blockRow hblockRow stop hstop => ?_⟩
    · have hsmall' : product.groupId.toNat < 10 ^ 5 := hsmall
      rw [hgroup] at hsome
      obtain rfl := Option.some.inj hsome
      omega
    · obtain ⟨-, readBlocks, hreadBlocks, hsame⟩ := readKeyBlocks_eq_some hkeyBlocks
      obtain ⟨block, hblock, hreadBlock⟩ := exists_mem_of_forall₂_left hreadBlocks hblockRow
      have hlt := hstops block ((hsame block).mpr hblock)
      rw [readKeyBlock_eq_some hreadBlock] at hstop
      obtain rfl := Option.some.inj hstop
      omega
  · intro hfit csvlk hcsvlk
    obtain ⟨product, hproduct, hhost, rfl⟩ := (hcsvlks csvlk).mp hcsvlk
    obtain ⟨row, hrow, hreadRow⟩ := exists_mem_of_forall₂ hparsed hproduct
    obtain ⟨hgroup, htype, hkeyBlocks⟩ := readProduct_eq_some hreadRow
    rw [of_decide_eq_true hhost] at htype
    obtain ⟨hsmall, hstops⟩ := hfit rows hrows row hrow htype
    refine ⟨?_, fun block hblock => ?_⟩
    · have hlt := hsmall _ hgroup
      show product.groupId.toNat < 10 ^ 5
      omega
    · obtain ⟨-, readBlocks, hreadBlocks, hsame⟩ := readKeyBlocks_eq_some hkeyBlocks
      obtain ⟨blockRow, hblockRow, hreadBlock⟩ := exists_mem_of_forall₂ hreadBlocks ((hsame block).mp hblock)
      have hlt := hstops blockRow hblockRow _ (readKeyBlock_eq_some hreadBlock)
      omega

theorem lcids_fit_iff :
    (∀ lcid ∈ compiled.lcids, lcid.value.toNat < 10 ^ 5) ↔
      ∀ rows, document.lcid = some rows → ∀ row ∈ rows, ∀ value, row.value = some value → value < 10 ^ 5 := by
  obtain ⟨-, rows, read, hrows, hread, hmem⟩ := writeLcids_eq_some (compile_eq_some h).2.2
  constructor
  · intro hfit rows' hrows' row hrow value hvalue
    obtain rfl := Option.some.inj (hrows.symm.trans hrows')
    obtain ⟨lcid, hlcid, hreadRow⟩ := exists_mem_of_forall₂_left hread hrow
    have hlt := hfit lcid ((hmem lcid).mpr hlcid)
    rw [(readLcid_eq_some hreadRow).1] at hvalue
    obtain rfl := Option.some.inj hvalue
    omega
  · intro hfit lcid hlcid
    obtain ⟨row, hrow, hreadRow⟩ := exists_mem_of_forall₂ hread ((hmem lcid).mp hlcid)
    have hlt := hfit rows hrows row hrow _ (readLcid_eq_some hreadRow).1
    omega

/-- The tables fit just when the document does. -/
theorem tablesFit_iff : TablesFit compiled ↔ Fits document := by
  have hbuilds := builds_fit_iff h
  have hhosts := hosts_fit_iff h
  have hlcids := lcids_fit_iff h
  exact ⟨fun hfit => ⟨hbuilds.mp hfit.builds, hhosts.mp hfit.hosts, hlcids.mp hfit.lcids⟩,
    fun hfit => ⟨hbuilds.mpr hfit.builds, hhosts.mpr hfit.hosts, hlcids.mpr hfit.locales⟩⟩

end

/-! ### What fits is drawn -/

section
variable {ε : Type} {rng : EntropySource ε} {compiled : Compiled}

/-- Every host key gets an identity of the documented shape. -/
theorem ensures_generate (hworks : rng.Works) (hchecked : Checked compiled) (hfit : TablesFit compiled) {today : Date}
    (htoday : today.Valid) (hfirst : 1970 ≤ today.year) (hlast : today.year ≤ 9999) :
    Ensures (HostIdentity.generate rng compiled today) fun identity =>
      identity.groups.length = compiled.csvlks.length ∧
        ∀ group ∈ identity.groups, shaped identity.build (decodeLossy group.epid.units) := by
  have hlcid : Ensures (drawLcid rng compiled) fun lcid => lcid ∈ compiled.lcids := by
    refine ensures_drawEntry hworks (List.length_pos_of_ne_nil compiled.lcids_ne_nil).ne' fun index hindex => ?_
    exact ⟨_, List.getElem?_eq_getElem hindex, List.getElem_mem hindex⟩
  have hbuild : Ensures (drawHostBuild rng compiled) fun build => build ∈ compiled.hostBuilds ∧ build.useForEpid ∧
      ∃ release, build.releaseDate = some release := by
    refine ensures_drawEntry hworks (List.length_pos_of_ne_nil compiled.drawable.1).ne' fun position hposition => ?_
    obtain ⟨build, hplace, -⟩ := compiled.drawable.2 _ (List.getElem_mem hposition)
    have hat : compiled.epidHostBuildAt position = some build := by
      rw [Compiled.epidHostBuildAt, List.getElem?_eq_getElem hposition]
      exact hplace
    exact ⟨build, hat, drawable_of_epidHostBuildAt hat⟩
  refine hlcid.bind fun lcid hlcid => hbuild.bind fun build ⟨hmem, huse, release, hrelease⟩ => ?_
  obtain ⟨hplatform, hyears⟩ := hfit.builds build hmem huse
  obtain ⟨hvalid, hpos, -⟩ := hchecked.releases build hmem release hrelease
  have hyear := hyears release hrelease
  have hgroups : ∀ csvlk ∈ compiled.csvlks, Ensures (generateGroup rng build lcid today csvlk) fun group =>
      shaped build (decodeLossy group.epid.units) := by
    intro csvlk hcsvlk
    obtain ⟨hne, hforward, -⟩ := hchecked.blocks csvlk hcsvlk
    obtain ⟨hgroup, hstops⟩ := hfit.hosts csvlk hcsvlk
    exact ensures_generateGroup hworks hrelease hvalid hpos (by omega) htoday (by omega) hlast hne hforward hstops hplatform
      hgroup (hfit.lcids lcid hlcid)
  refine (Ensures.forEach hgroups).bind fun groups hdrawn => .pure ⟨hdrawn.length_eq.symm, fun group hgroup => ?_⟩
  obtain ⟨csvlk, -, hshaped⟩ := exists_mem_of_forall₂ hdrawn hgroup
  exact hshaped

end

/-! ### What does not fit is drawn as well -/

theorem follows_drawEntry {α : Type} {count index : ℕ} {entry : ℕ → Option α} {a : α} (h : index < count) (hcount : count < 2 ^ 32)
    (hentry : entry index = some a) : Follows ([index] ++ []) (drawEntry script count entry) (· = a) := by
  rw [drawEntry, if_pos hcount, if_neg (by omega)]
  refine (follows_uniformBelow h hcount.le).bind fun value hvalue => ?_
  rw [hvalue, hentry]
  exact .pure rfl

theorem follows_uniformInInclusiveRange (high : ℕ) :
    Follows ([0] ++ []) (uniformInInclusiveRange script 0 high) (· = 0) := by
  rw [uniformInInclusiveRange, if_neg (by omega), if_neg (by omega)]
  refine (follows_uniformBelow (by omega) (by omega)).bind fun value hvalue => ?_
  rw [hvalue]
  exact .pure rfl

theorem follows_drawKeyId {csvlk : Csvlk} {offset key : ℕ} (h : offset < keyTotal csvlk)
    (hkey : keyAt csvlk.keyBlocks offset = some key) : Follows ([offset] ++ []) (drawKeyId script csvlk) (· = key) := by
  have hle : keyTotal csvlk ≤ 2 ^ 32 := by
    rw [keyTotal]
    split_ifs with hsmall
    · exact hsmall.le
    · norm_num
  rw [drawKeyId, if_neg (by omega)]
  refine (follows_uniformBelow h hle).bind fun value hvalue => ?_
  rw [hvalue, hkey]
  exact .pure rfl

/-- The day of the release can be drawn. -/
theorem follows_drawActivationDate {build : HostBuild} {release : Date} (hrelease : build.releaseDate = some release) (today : Date) :
    Follows (([0] ++ []) ++ []) (drawActivationDate script build today)
      (· = Date.fromDaysSinceEpoch (saturate release.daysSinceEpoch)) := by
  rw [drawActivationDate, hrelease]
  refine (follows_uniformInInclusiveRange _).bind fun offset hoffset => ?_
  rw [hoffset]
  exact .pure (by simp)

/-- With every key id and every build and locale that can be drawn. -/
theorem offers_generateGroup {build : HostBuild} {release : Date} (hrelease : build.releaseDate = some release) (lcid : Lcid)
    (today : Date) {csvlk : Csvlk} {offset key : ℕ} (h : offset < keyTotal csvlk)
    (hkey : keyAt csvlk.keyBlocks offset = some key) :
    Offers (generateGroup script build lcid today csvlk) fun group =>
      decodeLossy group.epid.units =
        formatEpid build csvlk key lcid (Date.fromDaysSinceEpoch (saturate release.daysSinceEpoch)) := by
  have hhardware : Follows [0] (once fun words => script.fill words 8) fun _ => True := fun rest =>
    .inr ⟨_, rfl, trivial⟩
  refine ⟨_, (follows_drawKeyId h hkey).bind fun keyId hkeyId =>
    (follows_drawActivationDate hrelease today).bind fun activated hactivated => hhardware.bind fun hardwareId _ =>
      (?_ : Follows [] _ _)⟩
  rw [hkeyId, hactivated]
  cases hparse : EPid.parse (formatEpid build csvlk key lcid (Date.fromDaysSinceEpoch (saturate release.daysSinceEpoch))) with
  | error failure => exact .fail
  | ok epid => exact .pure (EPid.decodeLossy_of_parse hparse)

/-- Blocks that do not overlap have no more ids than there are numbers. -/
theorem sum_keyCount_le {blocks : List KeyBlock} {previous : Option UInt32} {bound : ℕ}
    (h : blocksOverlap previous blocks = none) (hforward : ∀ block ∈ blocks, block.start ≤ block.stop)
    (hlt : ∀ block ∈ blocks, block.stop.toNat < bound) (hprevious : ∀ stop, previous = some stop → stop.toNat < bound) :
    previous.elim 0 (fun stop => stop.toNat + 1) + (blocks.map KeyBlock.keyCount).sum ≤ bound := by
  induction blocks generalizing previous with
  | nil =>
    cases previous with
    | none => simp
    | some stop => simpa using hprevious stop rfl
  | cons block blocks ih =>
    rw [List.forall_mem_cons] at hforward hlt
    rw [blocksOverlap] at h
    split_ifs at h with hbefore
    have hrest := ih h hforward.2 hlt.2 fun stop hstop => Option.some.inj hstop ▸ hlt.1
    have hfirst := UInt32.le_iff_toNat_le.mp hforward.1
    rw [Option.elim_some] at hrest
    rw [List.map_cons, List.sum_cons, KeyBlock.keyCount]
    cases previous with
    | none =>
      rw [Option.elim_none]
      omega
    | some stop =>
      have hafter : stop.toNat < block.start.toNat := by simpa [UInt32.le_iff_toNat_le] using hbefore
      rw [Option.elim_some]
      omega

theorem blocksOverlap_of_append {before after : List KeyBlock} {previous : Option UInt32}
    (h : blocksOverlap previous (before ++ after) = none) : blocksOverlap previous before = none := by
  induction before generalizing previous with
  | nil => rfl
  | cons block before ih =>
    rw [List.cons_append, blocksOverlap] at h
    split_ifs at h with hbefore
    rw [blocksOverlap, if_neg hbefore]
    exact ih h

/-- A key id that is too long can be drawn, if there is one. -/
theorem exists_keyAt {csvlk : Csvlk} (hne : csvlk.keyBlocks ≠ []) (hforward : ∀ block ∈ csvlk.keyBlocks, block.start ≤ block.stop)
    (hapart : blocksOverlap none csvlk.keyBlocks = none) :
    ∃ offset < keyTotal csvlk, ∃ key, keyAt csvlk.keyBlocks offset = some key ∧
      ((∃ block ∈ csvlk.keyBlocks, 10 ^ 9 ≤ block.stop.toNat) → 10 ^ 9 ≤ key) := by
  cases hfound : csvlk.keyBlocks.find? fun block => 10 ^ 9 ≤ block.stop.toNat with
  | none =>
    obtain ⟨block, blocks, hblocks⟩ := List.exists_cons_of_ne_nil hne
    have hcount : 0 < block.keyCount := by
      rw [KeyBlock.keyCount]
      omega
    refine ⟨0, Nat.pos_of_ne_zero (keyTotal_ne_zero hne), _, by rw [hblocks]; exact keyAt_append [] hcount, ?_⟩
    rintro ⟨long, hlong, hle⟩
    exact absurd (decide_eq_true hle) (List.find?_eq_none.mp hfound long hlong)
  | some block =>
    -- the first block that goes too far
    obtain ⟨hlong, before, after, hblocks, hbefore⟩ := List.find?_eq_some_iff_append.mp hfound
    have hstop : 10 ^ 9 ≤ block.stop.toNat := of_decide_eq_true hlong
    have hsmall : ∀ block ∈ before, block.stop.toNat < 10 ^ 9 := by
      intro block hblock
      simpa using hbefore block hblock
    rw [hblocks] at hapart hforward
    have hfirst : block.start.toNat ≤ block.stop.toNat :=
      UInt32.le_iff_toNat_le.mp (hforward block (List.mem_append_right _ List.mem_cons_self))
    have hsum := sum_keyCount_le (blocksOverlap_of_append hapart) (fun block hblock => hforward block (List.mem_append_left _ hblock))
      hsmall (by simp)
    have hstopLt := block.stop.toNat_lt
    have hplace : max block.start.toNat (10 ^ 9) - block.start.toNat < block.keyCount := by
      rw [KeyBlock.keyCount]
      omega
    have htotal : keyTotal csvlk = min (2 ^ 32 - 1)
        ((before.map KeyBlock.keyCount).sum + (block.keyCount + (after.map KeyBlock.keyCount).sum)) := by
      rw [keyTotal, hblocks, List.map_append, List.sum_append, List.map_cons, List.sum_cons]
      split_ifs with hfew <;> omega
    rw [Option.elim_none, Nat.zero_add] at hsum
    refine ⟨(before.map KeyBlock.keyCount).sum + (max block.start.toNat (10 ^ 9) - block.start.toNat), ?_, _,
      by rw [hblocks]; exact keyAt_append before hplace, fun _ => by omega⟩
    rw [htotal]
    omega

/-- Of an accepted document every identity can be drawn with every build and locale, and with
a key id that is too long where there is one. -/
theorem offers_generate {compiled : Compiled} (hchecked : Checked compiled) {build : HostBuild} (hbuild : build ∈ compiled.hostBuilds)
    (huse : build.useForEpid) {release : Date} (hrelease : build.releaseDate = some release) {lcid : Lcid}
    (hlcid : lcid ∈ compiled.lcids) (today : Date) :
    Offers (HostIdentity.generate script compiled today) fun identity => identity.build = build ∧
      List.Forall₂ (fun csvlk group => ∃ key, ((∃ block ∈ csvlk.keyBlocks, 10 ^ 9 ≤ block.stop.toNat) → 10 ^ 9 ≤ key) ∧
        decodeLossy group.epid.units =
          formatEpid build csvlk key lcid (Date.fromDaysSinceEpoch (saturate release.daysSinceEpoch)))
        compiled.csvlks identity.groups := by
  obtain ⟨position, hposition, hat⟩ := hchecked.places build hbuild huse
  obtain ⟨index, hindex⟩ := List.mem_iff_getElem?.mp hlcid
  have hgroups : ∀ csvlk ∈ compiled.csvlks, Offers (generateGroup script build lcid today csvlk) fun group =>
      ∃ key, ((∃ block ∈ csvlk.keyBlocks, 10 ^ 9 ≤ block.stop.toNat) → 10 ^ 9 ≤ key) ∧
        decodeLossy group.epid.units =
          formatEpid build csvlk key lcid (Date.fromDaysSinceEpoch (saturate release.daysSinceEpoch)) := by
    intro csvlk hcsvlk
    obtain ⟨hne, hforward, hapart⟩ := hchecked.blocks csvlk hcsvlk
    obtain ⟨offset, hoffset, key, hkey, hlong⟩ := exists_keyAt hne hforward hapart
    obtain ⟨words, hwords⟩ := offers_generateGroup hrelease lcid today hoffset hkey
    exact ⟨words, hwords.mono fun group hgroup => ⟨key, hlong, hgroup⟩⟩
  obtain ⟨words, hwords⟩ := Offers.forEach hgroups
  refine ⟨_, (follows_drawEntry (List.getElem?_eq_some_iff.mp hindex).1 hchecked.fewLcids hindex).bind fun drawn hdrawn =>
    (follows_drawEntry hposition hchecked.fewBuilds hat).bind fun claimed hclaimed =>
      (?_ : Follows (words ++ []) _ _)⟩
  rw [hdrawn, hclaimed]
  exact hwords.bind fun groups hgroups => .pure ⟨rfl, hgroups⟩

open Calendar in
/-- The day of the release has a year of four digits just when the release has. -/
theorem year_fromDays_release {release : Date} (hvalid : release.Valid) (hpos : 0 ≤ release.year) (hlt : release.year < 2 ^ 31) :
    0 ≤ (Date.fromDaysSinceEpoch (saturate release.daysSinceEpoch)).year ∧
      ((Date.fromDaysSinceEpoch (saturate release.daysSinceEpoch)).year ≤ 9999 ↔ release.year ≤ 9999) := by
  obtain ⟨-, hmonth, hday, hmost, -⟩ := hvalid.bounds
  have hleast := Date.dayNumber_lt_iff hvalid (-1)
  have hlast := Date.dayNumber_lt_iff hvalid 9999
  have hfirst : march (-1) = -366 := by decide
  have hmarch : march 9999 = 3652059 := by decide
  rw [Date.daysSinceEpoch_eq (by omega) hlt hmonth hday hmost, Date.epochShift, Date.saturate_eq (by omega) (by omega),
    Date.fromDaysSinceEpoch_eq (by omega) (by omega), Date.epochShift, sub_add_cancel]
  have hyear := Date.year_ofDayNumber_le_iff (min (2 ^ 31 - 1) release.dayNumber) (-1)
  refine ⟨by omega, ?_⟩
  rw [Date.year_ofDayNumber_le_iff]
  omega

section
variable {compiled : Compiled} (hchecked : Checked compiled) (h : Identifies compiled)
include hchecked h

theorem fieldsFit_of_identifies {build : HostBuild} (hbuild : build ∈ compiled.hostBuilds) (huse : build.useForEpid) {release : Date}
    (hrelease : build.releaseDate = some release) {lcid : Lcid} (hlcid : lcid ∈ compiled.lcids) :
    ∀ csvlk ∈ compiled.csvlks, ∃ key, ((∃ block ∈ csvlk.keyBlocks, 10 ^ 9 ≤ block.stop.toNat) → 10 ^ 9 ≤ key) ∧
      FieldsFit build csvlk key lcid (Date.fromDaysSinceEpoch (saturate release.daysSinceEpoch)) := by
  have htoday : (⟨2024, 1, 1⟩ : Date).Valid := by decide
  obtain ⟨hvalid, hpos, hlt⟩ := hchecked.releases build hbuild release hrelease
  obtain ⟨words, hwords⟩ := offers_generate hchecked hbuild huse hrelease hlcid ⟨2024, 1, 1⟩
  have hmeets := h.shaped works_script ⟨2024, 1, 1⟩ htoday (by norm_num) (by norm_num) 1 (words ++ [])
  rcases hwords [] with hfailed | ⟨identity, hdrawn, hclaimed, hgroups⟩
  · rw [hfailed] at hmeets
    exact hmeets.elim
  · rw [hdrawn] at hmeets
    intro csvlk hcsvlk
    obtain ⟨group, hgroup, key, hlong, htext⟩ := exists_mem_of_forall₂_left hgroups hcsvlk
    have hshaped := hmeets.2 group hgroup
    rw [hclaimed, htext, shaped_formatEpid_iff _ _ _ _ _ (year_fromDays_release hvalid hpos hlt).1] at hshaped
    exact ⟨key, hlong, hshaped⟩

theorem tablesFit_of_identifies : TablesFit compiled := by
  obtain ⟨csvlk, csvlks, hcsvlks⟩ := List.exists_cons_of_ne_nil compiled.csvlks_ne_nil
  obtain ⟨lcid, lcids, hlcids⟩ := List.exists_cons_of_ne_nil compiled.lcids_ne_nil
  have hcsvlk : csvlk ∈ compiled.csvlks := hcsvlks ▸ List.mem_cons_self
  have hlcid : lcid ∈ compiled.lcids := hlcids ▸ List.mem_cons_self
  have hreleased : ∀ build ∈ compiled.hostBuilds, build.useForEpid → ∃ release, build.releaseDate = some release := by
    intro build hbuild huse
    obtain ⟨position, -, hat⟩ := hchecked.places build hbuild huse
    exact (drawable_of_epidHostBuildAt hat).2.2
  obtain ⟨build, hbuild, huse⟩ : ∃ build ∈ compiled.hostBuilds, build.useForEpid = true := by
    obtain ⟨index, indices, hindices⟩ := List.exists_cons_of_ne_nil compiled.drawable.1
    obtain ⟨build, hbuild, huse, -⟩ := compiled.drawable.2 index (hindices ▸ List.mem_cons_self)
    exact ⟨build, List.mem_of_getElem? hbuild, huse⟩
  obtain ⟨release, hrelease⟩ := hreleased build hbuild huse
  refine ⟨?_, ?_, ?_⟩
  · intro claimed hclaimed hused
    obtain ⟨date, hdate⟩ := hreleased claimed hclaimed hused
    obtain ⟨hvalid, hpos, hlt⟩ := hchecked.releases claimed hclaimed date hdate
    obtain ⟨key, -, hfit⟩ := fieldsFit_of_identifies hchecked h hclaimed hused hdate hlcid csvlk hcsvlk
    refine ⟨hfit.platform, fun other hother => ?_⟩
    obtain rfl := Option.some.inj (hdate.symm.trans hother)
    have hyear := (year_fromDays_release hvalid hpos hlt).2
    have hshort := hfit.year
    omega
  · intro host hhost
    obtain ⟨key, hlong, hfit⟩ := fieldsFit_of_identifies hchecked h hbuild huse hrelease hlcid host hhost
    refine ⟨hfit.group, fun block hblock => ?_⟩
    by_contra hstop
    exact absurd (hlong ⟨block, hblock, Nat.le_of_not_lt hstop⟩) (Nat.not_le_of_lt hfit.keyId)
  · intro locale hlocale
    obtain ⟨key, -, hfit⟩ := fieldsFit_of_identifies hchecked h hbuild huse hrelease hlocale csvlk hcsvlk
    exact hfit.lcid

end

section
variable {document : ProductsDocument} {compiled : Compiled} (hcompiled : compile document = some compiled) (hfit : Fits document)
include hcompiled hfit

theorem ensures_generate_of_fits {ε : Type} {rng : EntropySource ε} (hworks : rng.Works) {today : Date} (htoday : today.Valid)
    (hfirst : 1970 ≤ today.year) (hlast : today.year ≤ 9999) :
    Ensures (HostIdentity.generate rng compiled today) fun identity =>
      identity.groups.length = compiled.csvlks.length ∧
        ∀ group ∈ identity.groups, shaped identity.build (decodeLossy group.epid.units) :=
  ensures_generate hworks (checked_of_compile hcompiled) ((tablesFit_iff hcompiled).mpr hfit) htoday hfirst hlast

/-- From a fair source the host has its identity sooner or later. -/
theorem exists_drawn_of_fits {ε : Type} {rng : EntropySource ε} (hworks : rng.Works) (hfair : FairSource rng) (today : Date)
    (htoday : today.Valid) (hfirst : 1970 ≤ today.year) (hlast : today.year ≤ 9999) (entropy : ε) :
    ∃ rounds identity, (HostIdentity.generate rng compiled today rounds entropy).1 = .drawn identity :=
  exists_drawn (ensures_generate_of_fits hcompiled hfit hworks htoday hfirst hlast) (ends_generate hworks hfair compiled today)
    entropy

end

/-- An accepted document gives every host key its identity, whatever is drawn, just when its
rows fit the fields of an identity. -/
theorem identifies_iff_fits {document : ProductsDocument} {compiled : Compiled} (h : compile document = some compiled) :
    Identifies compiled ↔ Fits document := by
  constructor
  · intro hidentifies
    exact (tablesFit_iff h).mp (tablesFit_of_identifies (checked_of_compile h) hidentifies)
  · intro hfit
    exact ⟨fun hworks today => ensures_generate_of_fits h hfit hworks,
      fun hworks hfair today => exists_drawn_of_fits h hfit hworks hfair today⟩

/-- A host key, a build and a locale. -/
def serverDocument (platform : ℤ) : ProductsDocument where
  application := some [⟨some "55c92734-d682-4d71-983e-d6ec3f16059f", some "Windows"⟩]
  product := some
    [{ activationId := some "84e331f6-4279-48c4-ab10-b75139181351"
       groupId := some 4919
       description := some "Windows Server 2025 RTM ServerDatacenter;ServerStandard Volume:CSVLK"
       editionId := some "ServerDatacenter;ServerStandard"
       keyType := some "Volume:CSVLK"
       application := some "55c92734-d682-4d71-983e-d6ec3f16059f"
       countedIds := some [some "907f1f65-adcd-4a2e-95bc-4bf500bc6e58"]
       keyBlocks := some [⟨some 0, some 19999⟩, ⟨some 20000, some 20019999⟩] }]
  hostBuild := some
    [{ build := some 26100
       platformId := some platform
       releaseDate := some "2024-11-01"
       useForEpid := some true
       ndr64 := some true
       description := some "Windows Server 2025" }]
  gvlk := some [⟨some "Windows Server 2025", some "Windows Server 2025 Datacenter", some "D764K-2NDRG-47T6Q-P8T8W-YP6DF"⟩]
  lcid := some [⟨some 1033, some "en-US", some "English", some "United States"⟩]

theorem compile_serverDocument : (compile (serverDocument 3612)).isSome ∧ (compile (serverDocument 100000)).isSome := by
  decide +kernel

theorem fits_serverDocument {platform : ℤ} : Fits (serverDocument platform) ↔ platform < 10 ^ 5 := by
  constructor
  · intro h
    exact (h.builds _ rfl _ List.mem_cons_self rfl).1 platform rfl
  · intro h
    refine ⟨?_, ?_, ?_⟩
    · rintro rows ⟨⟩ row hrow -
      obtain rfl := List.mem_singleton.mp hrow
      refine ⟨?_, ?_⟩
      · rintro _ ⟨⟩
        exact h
      · rintro text date ⟨⟩ hdate
        have hyear : (parseDate "2024-11-01").map CivilDate.year = some 2024 := by decide +kernel
        rw [hdate, Option.map_some] at hyear
        have := Option.some.inj hyear
        omega
    · rintro rows ⟨⟩ row hrow -
      obtain rfl := List.mem_singleton.mp hrow
      refine ⟨?_, ?_⟩
      · rintro _ ⟨⟩
        norm_num
      · have hall : ∀ block ∈ [(⟨some 0, some 19999⟩ : KeyBlockRow), ⟨some 20000, some 20019999⟩],
            ∀ stop, block.stop = some stop → stop < 10 ^ 9 := by
          simp
        exact hall
    · rintro rows ⟨⟩ row hrow value hvalue
      obtain rfl := List.mem_singleton.mp hrow
      cases hvalue
      norm_num

/-- From words that are written down a host of the document has its identity. -/
theorem identifies_serverDocument : ∃ rounds identity,
    (HostIdentity.generate script ((compile (serverDocument 3612)).get compile_serverDocument.1) ⟨2026, 1, 1⟩ rounds [7, 7, 7]).1 =
      .drawn identity :=
  ((identifies_iff_fits (Option.some_get compile_serverDocument.1).symm).mpr (fits_serverDocument.mpr (by norm_num))).succeeds
    works_script fairSource_script ⟨2026, 1, 1⟩ (by decide) (by norm_num) (by norm_num) [7, 7, 7]

/-- A platform of six digits is accepted, and gives no identity of the shape. -/
theorem six_digit_platform_accepted :
    ∃ compiled, compile (serverDocument 100000) = some compiled ∧ ¬ Identifies compiled := by
  have hcompiled : compile (serverDocument 100000) = some ((compile (serverDocument 100000)).get compile_serverDocument.2) :=
    (Option.some_get compile_serverDocument.2).symm
  refine ⟨_, hcompiled, fun h => ?_⟩
  have hfit := (tablesFit_iff hcompiled).mp (tablesFit_of_identifies (checked_of_compile hcompiled) h)
  exact absurd (fits_serverDocument.mp hfit) (by norm_num)

end Kmsrs.Policy
