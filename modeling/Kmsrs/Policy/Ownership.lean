import Kmsrs.Policy.Gate
import Kmsrs.Policy.Selection

/-! Whose host key answers. The application is checked against the products, while the key is
chosen by what the host keys count; a product in the second and not in the first is answered
as another application's. -/

namespace Kmsrs.Policy.Gate

open Kms Wire Db Draw Counting

/-- A request whose application has a host key is given a key of that application exactly when
the most specific key that counts its product, if there is one, is of that application. -/
theorem select_application_iff {document : Document} {catalogue : Catalogue}
    (hbuilt : generate document = some catalogue) (identity : HostIdentity catalogue) {application : Guid} (counted : Guid)
    (hserved : ∃ csvlk ∈ catalogue.csvlks, csvlk.application = some application) {csvlk : Csvlk}
    (hselected : catalogue.csvlkAt (identity.select application counted).1.index = some csvlk) :
    csvlk.application = some application ↔
      ∀ index specific, MostSpecific catalogue counted index specific → specific.application = some application := by
  rcases identity.select_cases hbuilt application counted with ⟨index, specific, hselect, hrow, hspecific⟩ | ⟨hnone, hselect⟩
  · rw [hselect] at hselected
    obtain rfl := Option.some.inj (hrow.symm.trans hselected)
    constructor
    · intro happlication index' other hother
      obtain ⟨-, rfl⟩ := hspecific.unique hother
      exact happlication
    · intro h
      exact h _ specific hspecific
  · obtain ⟨found, hfound, happlication⟩ := identity.fallback_application hbuilt hserved
    rw [hselect] at hselected
    obtain rfl := Option.some.inj (hfound.symm.trans hselected)
    refine iff_of_true happlication fun index specific hspecific => ?_
    exact absurd hspecific.2.1 (hnone specific (List.mem_of_getElem? hspecific.1))

section
variable {ε : Type} {rng : EntropySource ε} {compiled : Compiled} {today : Date} {rounds : ℕ} {entropy : ε}

/-- The text of an identity has the group of the host key it was drawn for. -/
theorem text_of_drawn {build : HostBuild} {lcid : Lcid} {csvlk : Csvlk} {group : DrawnGroup}
    (h : (generateGroup rng build lcid today csvlk rounds entropy).1 = .drawn group) :
    decodeLossy group.epid.units = formatEpid build csvlk group.keyId lcid group.activated := by
  obtain ⟨keyId, _, -, h⟩ := bind_eq_drawn_iff.mp h
  obtain ⟨activated, _, -, h⟩ := bind_eq_drawn_iff.mp h
  obtain ⟨hardwareId, _, -, h⟩ := bind_eq_drawn_iff.mp h
  cases hparse : EPid.parse (formatEpid build csvlk keyId lcid activated) with
  | error failure =>
    rw [hparse] at h
    cases h
  | ok epid =>
    rw [hparse] at h
    obtain rfl : { epid, hardwareId, keyId, activated } = group := Drawn.drawn.inj h
    exact EPid.decodeLossy_of_parse hparse

/-- The grant is as this host key: it is the one selected, and the identity was drawn for it
and carries its group. -/
structure AnsweredAs (rng : EntropySource ε) (compiled : Compiled) (today : Date) (rounds : ℕ) (drawn : DrawnIdentity)
    (grant : Grant) (csvlk : Csvlk) : Prop where
  selected : compiled.csvlkAt grant.selection.index = some csvlk
  identity : ∃ group entropy, (generateGroup rng drawn.build drawn.lcid today csvlk rounds entropy).1 = .drawn group ∧
    grant.identity = group.toGroupIdentity
  text : ∃ keyId activated, decodeLossy grant.identity.epid.units = formatEpid drawn.build csvlk keyId drawn.lcid activated

/-- Every grant is as one of the host keys. -/
theorem answeredAs_of_grant {document : ProductsDocument} (hcompiled : compile document = some compiled)
    {drawn : DrawnIdentity} (hdrawn : (HostIdentity.generate rng compiled today rounds entropy).1 = .drawn drawn)
    {features : Features} {request : Request} {counts : ClientCounts} {now : Instant} {hostTime : Option UInt64} {grant : Grant}
    (hgrant : (evaluate features request (drawn.host (length_groups_of_drawn hdrawn)) counts now hostTime).1 = .grant grant) :
    ∃ csvlk, AnsweredAs rng compiled today rounds drawn grant csvlk := by
  obtain ⟨hselection, hidentity⟩ := selected_of_grant _ _ _ _ _ _ hgrant
  obtain ⟨csvlk, group, state, hcsvlk, hgroup, hsame⟩ :=
    select_drawn hcompiled hdrawn (length_groups_of_drawn hdrawn) request.application request.counted
  rw [← hselection] at hcsvlk
  rw [← hidentity] at hsame
  exact ⟨csvlk, hcsvlk, ⟨group, state, hgroup, hsame⟩, _, _, by rw [hsame]; exact text_of_drawn hgroup⟩

end

/-- Every grant is as one host key, in what is selected and in the identity that is sent. Where
the application of the request has a host key, this is one of its own exactly when the most
specific key that counts the product, if there is one, is. -/
theorem own_application_iff {document : ProductsDocument} {compiled : Compiled} (hcompiled : compile document = some compiled)
    {ε : Type} (rng : EntropySource ε) (today : Date) (rounds : ℕ) (entropy : ε) (drawn : DrawnIdentity)
    (hdrawn : (HostIdentity.generate rng compiled today rounds entropy).1 = .drawn drawn) (features : Features)
    (request : Request) (counts : ClientCounts) (now : Instant) (hostTime : Option UInt64) (grant : Grant)
    (hgrant : (evaluate features request (drawn.host (length_groups_of_drawn hdrawn)) counts now hostTime).1 = .grant grant)
    (hserved : ∃ csvlk ∈ compiled.csvlks, csvlk.application = some request.application) :
    ∃ csvlk, AnsweredAs rng compiled today rounds drawn grant csvlk ∧
      (csvlk.application = some request.application ↔
        ∀ index specific, MostSpecific compiled.toCatalogue request.counted index specific →
          specific.application = some request.application) := by
  obtain ⟨csvlk, hanswered⟩ := answeredAs_of_grant hcompiled hdrawn hgrant
  refine ⟨csvlk, hanswered, select_application_iff (compile_eq_some hcompiled).1
    (drawn.host (length_groups_of_drawn hdrawn)) request.counted hserved ?_⟩
  rw [← (selected_of_grant _ _ _ _ _ _ hgrant).1]
  exact hanswered.selected

/-! ### Server 2025 -/

/-- The two host keys, with a build and a locale for their identities. -/
def twoHostsDocument : ProductsDocument := { serverDocument 3612 with toDocument := twoHosts }

theorem compile_twoHostsDocument : (compile twoHostsDocument).isSome = true := by decide +kernel

theorem fits_twoHostsDocument : Fits twoHostsDocument := by
  have hserver : Fits (serverDocument 3612) := fits_serverDocument.mpr (by norm_num)
  refine ⟨hserver.builds, ?_, hserver.locales⟩
  rintro rows ⟨⟩ row hrow -
  simp only [List.mem_cons, List.not_mem_nil, or_false] at hrow
  rcases hrow with rfl | rfl <;> simp

section
variable {catalogue : Catalogue} (h : generate twoHosts = some catalogue)
include h

/-- Whatever application a client of Server 2025 names, no gate stops it, and the first key
answers. -/
theorem server2025_granted (identity : HostIdentity catalogue) (application : Guid) :
    ∃ grant, (evaluate .default (sampleRequest application server2025) identity .new 0 none).1 = .grant grant ∧
      grant.selection = .resolved 0 := by
  obtain rfl : twoKeys = catalogue := Option.some.inj (generate_twoKeys.symm.trans h)
  obtain ⟨hproduct, hcounting, -⟩ := twoKeys_server2025
  rw [Option.isNone_iff_eq_none] at hproduct
  have hopen : refusal .default twoKeys (sampleRequest application server2025) none = none := by
    simp [refusal, hproduct, sampleRequest, Features.refuseClockSkew, Features.default]
  rcases evaluate_cases .default (sampleRequest application server2025) identity .new 0 none with
    ⟨refused, hrefused, -⟩ | ⟨-, hgranted⟩
  · rw [hopen] at hrefused
    cases hrefused
  · refine ⟨_, congrArg Prod.fst hgranted, ?_⟩
    change (identity.select application server2025).1 = _
    have hplace := mem_csvlksCounting_iff h server2025
    simp only [hcounting, List.mem_singleton] at hplace
    rcases identity.select_cases h application server2025 with ⟨index, csvlk, hselected, hrow, -, hcounted, -⟩ | ⟨hnone, -⟩
    · rw [(hplace index).mpr ⟨csvlk, hrow, hcounted⟩] at hselected
      exact hselected
    · obtain ⟨csvlk, hrow, hcounted⟩ := (hplace 0).mp rfl
      exact absurd hcounted (hnone csvlk (List.mem_of_getElem? hrow))

/-- That key is of Windows; the other is of Office. -/
theorem applications_twoHosts : (∀ csvlk, catalogue.csvlkAt 0 = some csvlk → csvlk.application = some windows) ∧
    ∀ application, some application ∈ [some windows, some office] →
      ∃ csvlk ∈ catalogue.csvlks, csvlk.application = some application := by
  obtain rfl : twoKeys = catalogue := Option.some.inj (generate_twoKeys.symm.trans h)
  constructor
  · intro csvlk hcsvlk
    have hrow := congrArg (Option.map Csvlk.application) hcsvlk
    rw [Tables.csvlkAt, ← List.getElem?_map, twoKeys_server2025.2.2] at hrow
    exact (Option.some.inj hrow).symm
  · intro application happlication
    rw [← twoKeys_server2025.2.2] at happlication
    exact List.mem_map.mp happlication

end

theorem exists_drawn_twoHostsDocument : ∃ compiled rounds drawn, compile twoHostsDocument = some compiled ∧
    (HostIdentity.generate script compiled ⟨2026, 1, 1⟩ rounds [7, 7, 7]).1 = .drawn drawn := by
  obtain ⟨compiled, hcompiled⟩ := Option.isSome_iff_exists.mp compile_twoHostsDocument
  obtain ⟨rounds, drawn, hdrawn⟩ := exists_drawn_of_fits hcompiled fits_twoHostsDocument works_script fairSource_script
    ⟨2026, 1, 1⟩ (by decide) (by norm_num) (by norm_num) [7, 7, 7]
  exact ⟨compiled, rounds, drawn, hcompiled, hdrawn⟩

/-- A Windows client of Server 2025 is answered as the Windows key. -/
theorem windows_client_of_own_application : ∃ compiled rounds drawn grant csvlk,
    compile twoHostsDocument = some compiled ∧
    AnsweredAs script compiled ⟨2026, 1, 1⟩ rounds drawn grant csvlk ∧ grant.selection = .resolved 0 ∧
      csvlk.application = some windows ∧
      ∀ index specific, MostSpecific compiled.toCatalogue server2025 index specific → specific.application = some windows := by
  obtain ⟨compiled, rounds, drawn, hcompiled, hdrawn⟩ := exists_drawn_twoHostsDocument
  have hbuilt := (compile_eq_some hcompiled).1
  obtain ⟨hfirst, hserved⟩ := applications_twoHosts hbuilt
  obtain ⟨grant, hgrant, hselection⟩ := server2025_granted hbuilt (drawn.host (length_groups_of_drawn hdrawn)) windows
  obtain ⟨csvlk, hanswered, hiff⟩ := own_application_iff hcompiled script _ _ _ _ hdrawn .default
    (sampleRequest windows server2025) .new 0 none grant hgrant (hserved windows (by simp))
  have happlication : csvlk.application = some windows := hfirst csvlk (by rw [← hanswered.selected, hselection]; rfl)
  exact ⟨compiled, rounds, drawn, grant, csvlk, hcompiled, hanswered, hselection, happlication, hiff.mp happlication⟩

/-- An Office client that asks for Server 2025 is answered as the Windows key, with its group,
though there is an Office key. -/
theorem office_client_answered_as_windows : windows ≠ office ∧ ∃ compiled rounds drawn,
    compile twoHostsDocument = some compiled ∧
    ∃ hdrawn : (HostIdentity.generate script compiled ⟨2026, 1, 1⟩ rounds [7, 7, 7]).1 = .drawn drawn,
      (∃ csvlk ∈ compiled.csvlks, csvlk.application = some office) ∧ ∃ grant csvlk,
        (evaluate .default (sampleRequest office server2025) (drawn.host (length_groups_of_drawn hdrawn)) .new 0 none).1 =
          .grant grant ∧
        AnsweredAs script compiled ⟨2026, 1, 1⟩ rounds drawn grant csvlk ∧ csvlk.application = some windows := by
  obtain ⟨compiled, rounds, drawn, hcompiled, hdrawn⟩ := exists_drawn_twoHostsDocument
  have hbuilt := (compile_eq_some hcompiled).1
  obtain ⟨hfirst, hserved⟩ := applications_twoHosts hbuilt
  obtain ⟨grant, hgrant, hselection⟩ := server2025_granted hbuilt (drawn.host (length_groups_of_drawn hdrawn)) office
  obtain ⟨csvlk, hanswered⟩ := answeredAs_of_grant hcompiled hdrawn hgrant
  exact ⟨by decide +kernel, compiled, rounds, drawn, hcompiled, hdrawn, hserved office (by simp), grant, csvlk, hgrant,
    hanswered, hfirst csvlk (by rw [← hanswered.selected, hselection]; rfl)⟩

end Kmsrs.Policy.Gate
