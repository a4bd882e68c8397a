import Kmsrs.Policy.Startup

/-! The host key that answers, against its specification: what the lookups find in a built
catalogue, which place is chosen among the host keys, and whose identity that place has. -/

namespace Kmsrs.Policy

open Kms Db Sorted Draw

section
variable {document : Document} {catalogue : Catalogue}

/-- The places of the host keys that count a product, from the first on. -/
theorem csvlksCounting_eq_filter (hbuilt : generate document = some catalogue) (counted : Guid) :
    (catalogue.csvlksCounting counted).map UInt16.toNat =
      (List.range catalogue.csvlks.length).filter fun index =>
        (catalogue.csvlks[index]?).any fun csvlk => counted ∈ csvlk.countedIds := by
  have hleft : ((catalogue.csvlksCounting counted).map UInt16.toNat).Pairwise (· < ·) := increasing_csvlksCounting hbuilt counted
  have hright : ((List.range catalogue.csvlks.length).filter fun index =>
      (catalogue.csvlks[index]?).any fun csvlk => counted ∈ csvlk.countedIds).Pairwise (· < ·) :=
    List.pairwise_lt_range.filter _
  refine List.Perm.eq_of_pairwise' (hleft.imp le_of_lt) (hright.imp le_of_lt) ?_
  refine (List.perm_ext_iff_of_nodup (hleft.imp ne_of_lt) (hright.imp ne_of_lt)).mpr fun index => ?_
  rw [List.mem_map, List.mem_filter, List.mem_range, Option.any_eq_true]
  constructor
  · rintro ⟨place, hplace, rfl⟩
    obtain ⟨csvlk, hrow, hcounted⟩ := (mem_csvlksCounting_iff hbuilt counted place).mp hplace
    exact ⟨(List.getElem?_eq_some_iff.mp hrow).1, csvlk, hrow, decide_eq_true hcounted⟩
  · rintro ⟨-, csvlk, hrow, hcounted⟩
    have hplace := (mem_csvlksCounting_iff hbuilt counted (.ofNat index)).mpr
      ⟨csvlk, HostIdentity.csvlkAt_ofNat hbuilt hrow, of_decide_eq_true hcounted⟩
    exact ⟨_, hplace, (HostIdentity.toNat_place hbuilt hrow).2⟩

/-- What answers: the most specific host key that counts the product, or the widest of the
application where none does, or the first. -/
def Answers (catalogue : Catalogue) (application counted : Guid) : CsvlkSelection → Prop
  | .resolved index => ∃ csvlk, MostSpecific catalogue counted index.toNat csvlk
  | .fallback index => (∀ csvlk ∈ catalogue.csvlks, counted ∉ csvlk.countedIds) ∧
    ((∃ csvlk, Widest catalogue application index.toNat csvlk) ∨
      ((∀ csvlk ∈ catalogue.csvlks, csvlk.application ≠ some application) ∧ index = 0))

theorem answers_select (hbuilt : generate document = some catalogue) (identity : HostIdentity catalogue)
    (application counted : Guid) : Answers catalogue application counted (identity.select application counted).1 := by
  rcases identity.select_cases hbuilt application counted with ⟨index, csvlk, hselect, -, hspecific⟩ | ⟨hnone, hselect⟩
  · rw [hselect]
    exact ⟨csvlk, hspecific⟩
  · rw [hselect]
    exact ⟨hnone, (identity.fallback_cases hbuilt application).2⟩

end

/-! ### The identities that were drawn -/

section
variable {ε : Type} {rng : EntropySource ε} {compiled : Compiled} {today : Date} {rounds : ℕ} {entropy : ε}

/-- The identity of each host key is the one that was drawn for it. -/
theorem forall₂_groups {drawn : DrawnIdentity} (h : (HostIdentity.generate rng compiled today rounds entropy).1 = .drawn drawn) :
    List.Forall₂ (fun csvlk group => ∃ entropy,
      (generateGroup rng drawn.build drawn.lcid today csvlk rounds entropy).1 = .drawn group) compiled.csvlks drawn.groups := by
  obtain ⟨lcid, _, -, h⟩ := bind_eq_drawn_iff.mp h
  obtain ⟨build, _, -, h⟩ := bind_eq_drawn_iff.mp h
  obtain ⟨groups, _, hgroups, h⟩ := bind_eq_drawn_iff.mp h
  obtain rfl : { lcid, build, groups } = drawn := Drawn.drawn.inj h
  exact forall₂_of_forEach (congrArg Prod.fst hgroups)

theorem length_groups_of_drawn {drawn : DrawnIdentity}
    (h : (HostIdentity.generate rng compiled today rounds entropy).1 = .drawn drawn) :
    drawn.groups.length = compiled.csvlks.length :=
  (forall₂_groups h).length_eq.symm

/-- The identity that was drawn, as requests are answered from it. -/
def DrawnIdentity.host (drawn : DrawnIdentity) (h : drawn.groups.length = compiled.csvlks.length) :
    HostIdentity compiled.toCatalogue where
  groups := drawn.groups.map DrawnGroup.toGroupIdentity
  length_groups := (List.length_map _).trans h

/-- The identity that answers was drawn for the host key in its place. -/
theorem select_drawn {document : ProductsDocument} (hcompiled : compile document = some compiled) {drawn : DrawnIdentity}
    (h : (HostIdentity.generate rng compiled today rounds entropy).1 = .drawn drawn)
    (hlength : drawn.groups.length = compiled.csvlks.length) (application counted : Guid) :
    ∃ csvlk group entropy, compiled.csvlkAt ((drawn.host hlength).select application counted).1.index = some csvlk ∧
      (generateGroup rng drawn.build drawn.lcid today csvlk rounds entropy).1 = .drawn group ∧
      ((drawn.host hlength).select application counted).2 = group.toGroupIdentity := by
  have hselect := (drawn.host hlength).group_select (compile_eq_some hcompiled).1 application counted
  generalize ((drawn.host hlength).select application counted).1.index = index at hselect ⊢
  obtain ⟨group, hgroup, hsame⟩ := Option.map_eq_some_iff.mp ((List.getElem?_map ..).symm.trans hselect)
  obtain ⟨hlt, hat⟩ := List.getElem?_eq_some_iff.mp hgroup
  have hcsvlk := List.getElem?_eq_getElem (hlength ▸ hlt : index.toNat < compiled.csvlks.length)
  obtain ⟨state, hdrawn⟩ := List.forall₂_iff_get.mp (forall₂_groups h) |>.2 index.toNat (hlength ▸ hlt) hlt
  exact ⟨_, group, state, hcsvlk, by rw [← hat]; exact hdrawn, hsame.symm⟩

end

/-- Of every document that is accepted the lookups find what is in the tables, and a request is
answered by the host key that is specified, with the identity that was drawn for it. -/
theorem select_as_specified :
    (∀ document catalogue, generate document = some catalogue →
      (∀ counted, (catalogue.csvlksCounting counted).map UInt16.toNat =
        (List.range catalogue.csvlks.length).filter fun index =>
          (catalogue.csvlks[index]?).any fun csvlk => counted ∈ csvlk.countedIds) ∧
      (∀ activationId row, catalogue.product activationId = some row ↔
        row ∈ catalogue.products ∧ row.activationId = activationId) ∧
      (∀ activationId, (catalogue.product activationId).isSome ↔ ∃ row ∈ catalogue.products, row.activationId = activationId) ∧
      ∀ (identity : HostIdentity catalogue) application counted,
        Answers catalogue application counted (identity.select application counted).1 ∧
        identity.groups[(identity.select application counted).1.index.toNat]? =
          some (identity.select application counted).2) ∧
    ∀ document compiled, compile document = some compiled →
      ∀ {ε : Type} (rng : EntropySource ε) today rounds entropy drawn,
        (HostIdentity.generate rng compiled today rounds entropy).1 = .drawn drawn →
        ∃ hlength : drawn.groups.length = compiled.csvlks.length, ∀ application counted,
          ∃ csvlk group entropy, compiled.csvlkAt ((drawn.host hlength).select application counted).1.index = some csvlk ∧
            (generateGroup rng drawn.build drawn.lcid today csvlk rounds entropy).1 = .drawn group ∧
            ((drawn.host hlength).select application counted).2 = group.toGroupIdentity := by
  constructor
  · intro document catalogue hbuilt
    have hproduct : ∀ activationId row, catalogue.product activationId = some row ↔
        row ∈ catalogue.products ∧ row.activationId = activationId := by
      intro activationId row
      rw [Tables.product, catalogue.asserted.products_increasing.lookup_eq_some_iff, rank_injective.eq_iff]
    refine ⟨csvlksCounting_eq_filter hbuilt, hproduct, ?_, ?_⟩
    · intro activationId
      simp only [Option.isSome_iff_exists, hproduct]
    · intro identity application counted
      exact ⟨answers_select hbuilt identity application counted, identity.group_select hbuilt application counted⟩
  · intro document compiled hcompiled ε rng today rounds entropy drawn hdrawn
    have hlength := length_groups_of_drawn hdrawn
    exact ⟨hlength, select_drawn hcompiled hdrawn hlength⟩

/-- A host of one key: every product that it counts is found there, and whatever is asked for is
answered with the identity drawn for it. -/
theorem select_serverDocument : ∃ compiled rounds drawn, compile (serverDocument 3612) = some compiled ∧
    (HostIdentity.generate script compiled ⟨2026, 1, 1⟩ rounds [7, 7, 7]).1 = .drawn drawn ∧
    ∃ hlength : drawn.groups.length = compiled.csvlks.length, ∀ application counted,
      Answers compiled.toCatalogue application counted ((drawn.host hlength).select application counted).1 ∧
      ∃ csvlk group entropy, compiled.csvlkAt ((drawn.host hlength).select application counted).1.index = some csvlk ∧
        (generateGroup script drawn.build drawn.lcid ⟨2026, 1, 1⟩ csvlk rounds entropy).1 = .drawn group ∧
        ((drawn.host hlength).select application counted).2 = group.toGroupIdentity := by
  obtain ⟨compiled, hcompiled⟩ := Option.isSome_iff_exists.mp compile_serverDocument.1
  obtain ⟨rounds, drawn, hdrawn⟩ := exists_drawn_of_fits hcompiled (fits_serverDocument.mpr (by norm_num)) works_script
    fairSource_script ⟨2026, 1, 1⟩ (by decide) (by norm_num) (by norm_num) [7, 7, 7]
  obtain ⟨hlookups, hidentities⟩ := select_as_specified
  obtain ⟨-, -, -, hselect⟩ := hlookups _ _ (compile_eq_some hcompiled).1
  obtain ⟨hlength, hanswered⟩ := hidentities _ _ hcompiled script _ _ _ _ hdrawn
  exact ⟨compiled, rounds, drawn, hcompiled, hdrawn, hlength, fun application counted =>
    ⟨(hselect (drawn.host hlength) application counted).1, hanswered application counted⟩⟩

end Kmsrs.Policy
