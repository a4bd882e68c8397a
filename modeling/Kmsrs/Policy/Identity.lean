import Kmsrs.Db.Build
import Kmsrs.Kms.EPid

/-! The host's identities, one for each host key, and which of them answers. A
product that some host key counts is answered by the most specific such key; any
other by the widest key of the application asked about. -/

namespace Kmsrs.Policy

open Kmsrs.Kms Kmsrs.Db

/-- The identity a host key presents. -/
structure GroupIdentity where
  epid : EPid
  hardwareId : Vector UInt8 8

/-- The identities drawn at start-up, one for each host key and in their order. -/
structure HostIdentity (catalogue : Catalogue) where
  groups : List GroupIdentity
  length_groups : groups.length = catalogue.csvlks.length

/-- The place of the host key that answers. -/
inductive CsvlkSelection where
  | resolved (index : UInt16)
  | fallback (index : UInt16)
deriving DecidableEq

def CsvlkSelection.index : CsvlkSelection → UInt16
  | .resolved index | .fallback index => index

namespace HostIdentity

variable {catalogue : Catalogue}

theorem groups_ne_nil (identity : HostIdentity catalogue) : identity.groups ≠ [] := by
  have hsome := List.length_pos_of_ne_nil catalogue.csvlks_ne_nil
  rw [← identity.length_groups] at hsome
  exact List.ne_nil_of_length_pos hsome

def anyGroup (identity : HostIdentity catalogue) : GroupIdentity := identity.groups.head identity.groups_ne_nil

/-- The key of the application that counts most products, the first of equals; any
key if it has none. -/
def fallback (identity : HostIdentity catalogue) (application : Guid) : UInt16 × GroupIdentity :=
  let best := ((catalogue.csvlks.zipIdx.filter fun entry => entry.1.application = some application).argmax
    fun entry => toLex (entry.1.countedIds.length, OrderDual.toDual entry.2)).or catalogue.csvlks.zipIdx.head?
  match best with
  | none => (0, identity.anyGroup)
  | some (_, index) =>
    let index : UInt16 := if index < 2 ^ 16 then .ofNat index else 0
    match identity.groups[index.toNat]? with
    | none => (0, identity.anyGroup)
    | some group => (index, group)

/-- The identity to answer with. -/
def select (identity : HostIdentity catalogue) (application counted : Guid) : CsvlkSelection × GroupIdentity :=
  let candidates := (catalogue.csvlksCounting counted).filterMap fun index =>
    (catalogue.csvlkAt index).map fun csvlk => (index, csvlk)
  let resolved := candidates.argmin fun candidate => toLex (candidate.2.countedIds.length, candidate.1.toNat)
  match resolved.bind fun candidate => (identity.groups[candidate.1.toNat]?).map fun group => (candidate.1, group) with
  | some (index, group) => (.resolved index, group)
  | none =>
    let (index, group) := identity.fallback application
    (.fallback index, group)

end HostIdentity

/-! ### The key that answers -/

/-- The host key that counts a product, among fewer others than any other such key;
the first of equals. -/
def MostSpecific (catalogue : Catalogue) (counted : Guid) (index : ℕ) (csvlk : Csvlk) : Prop :=
  catalogue.csvlks[index]? = some csvlk ∧ counted ∈ csvlk.countedIds ∧
    ∀ index' other, catalogue.csvlks[index']? = some other → counted ∈ other.countedIds →
      toLex (csvlk.countedIds.length, index) ≤ toLex (other.countedIds.length, index')

/-- The host key of an application that counts more products than any other; the first of
equals. -/
def Widest (catalogue : Catalogue) (application : Guid) (index : ℕ) (csvlk : Csvlk) : Prop :=
  catalogue.csvlks[index]? = some csvlk ∧ csvlk.application = some application ∧
    ∀ index' other, catalogue.csvlks[index']? = some other → other.application = some application →
      other.countedIds.length < csvlk.countedIds.length ∨
        other.countedIds.length = csvlk.countedIds.length ∧ index ≤ index'

theorem MostSpecific.unique {catalogue : Catalogue} {counted : Guid} {index index' : ℕ} {csvlk csvlk' : Csvlk}
    (h : MostSpecific catalogue counted index csvlk) (h' : MostSpecific catalogue counted index' csvlk') :
    index = index' ∧ csvlk = csvlk' := by
  obtain ⟨hrow, hcounted, hleast⟩ := h
  obtain ⟨hrow', hcounted', hleast'⟩ := h'
  have hsame := le_antisymm (hleast index' csvlk' hrow' hcounted') (hleast' index csvlk hrow hcounted)
  obtain rfl : index = index' := (Prod.mk.inj (toLex.injective hsame)).2
  exact ⟨rfl, Option.some.inj (hrow.symm.trans hrow')⟩

namespace HostIdentity

variable {document : Document} {catalogue : Catalogue}

theorem group_of_csvlkAt (identity : HostIdentity catalogue) {index : UInt16} {csvlk : Csvlk}
    (h : catalogue.csvlkAt index = some csvlk) : ∃ group, identity.groups[index.toNat]? = some group := by
  have hlt := (List.getElem?_eq_some_iff.mp h).1
  exact ⟨_, List.getElem?_eq_getElem (identity.length_groups ▸ hlt)⟩

/-- A place is below 2^16. -/
theorem toNat_place (hbuilt : generate document = some catalogue) {index : ℕ} {csvlk : Csvlk}
    (h : catalogue.csvlks[index]? = some csvlk) : index < 2 ^ 16 ∧ (UInt16.ofNat index).toNat = index := by
  have hlt := Nat.lt_of_lt_of_le (List.getElem?_eq_some_iff.mp h).1 (length_csvlks_le hbuilt)
  exact ⟨hlt, UInt16.toNat_ofNat_of_lt' hlt⟩

theorem csvlkAt_ofNat (hbuilt : generate document = some catalogue) {index : ℕ} {csvlk : Csvlk}
    (h : catalogue.csvlks[index]? = some csvlk) : catalogue.csvlkAt (.ofNat index) = some csvlk := by
  rw [Tables.csvlkAt, (toNat_place hbuilt h).2, h]

/-- The candidates are the host keys that count the product. -/
theorem mem_candidates_iff (hbuilt : generate document = some catalogue) (counted : Guid) (index : UInt16)
    (csvlk : Csvlk) :
    (index, csvlk) ∈ ((catalogue.csvlksCounting counted).filterMap fun index =>
        (catalogue.csvlkAt index).map fun csvlk => (index, csvlk)) ↔
      catalogue.csvlkAt index = some csvlk ∧ counted ∈ csvlk.countedIds := by
  rw [List.mem_filterMap]
  constructor
  · rintro ⟨place, hplace, hentry⟩
    obtain ⟨row, hrow, hpair⟩ := Option.map_eq_some_iff.mp hentry
    obtain ⟨rfl, rfl⟩ := Prod.mk.inj hpair
    obtain ⟨found, hfound, hcounted⟩ := (mem_csvlksCounting_iff hbuilt counted place).mp hplace
    obtain rfl := Option.some.inj (hrow.symm.trans hfound)
    exact ⟨hrow, hcounted⟩
  · rintro ⟨hrow, hcounted⟩
    refine ⟨index, (mem_csvlksCounting_iff hbuilt counted index).mpr ⟨csvlk, hrow, hcounted⟩, ?_⟩
    rw [hrow]
    rfl

/-- A product that is counted is answered by its most specific host key, any other
by a fallback. -/
theorem select_cases (hbuilt : generate document = some catalogue) (identity : HostIdentity catalogue)
    (application counted : Guid) :
    (∃ index csvlk, (identity.select application counted).1 = .resolved index ∧
      catalogue.csvlkAt index = some csvlk ∧ MostSpecific catalogue counted index.toNat csvlk) ∨
    ((∀ csvlk ∈ catalogue.csvlks, counted ∉ csvlk.countedIds) ∧
      (identity.select application counted).1 = .fallback (identity.fallback application).1) := by
  have hmem := mem_candidates_iff hbuilt counted
  unfold select
  dsimp only
  generalize (catalogue.csvlksCounting counted).filterMap _ = candidates at hmem ⊢
  cases hbest : candidates.argmin fun candidate => toLex (candidate.2.countedIds.length, candidate.1.toNat) with
  | none =>
    right
    have hnone := List.argmin_eq_none.mp hbest
    refine ⟨fun csvlk hcsvlk hcounted => ?_, rfl⟩
    obtain ⟨index, hindex⟩ := List.mem_iff_getElem?.mp hcsvlk
    have hcandidate := (hmem (.ofNat index) csvlk).mpr ⟨csvlkAt_ofNat hbuilt hindex, hcounted⟩
    rw [hnone] at hcandidate
    exact List.not_mem_nil hcandidate
  | some best =>
    left
    obtain ⟨index, csvlk⟩ := best
    obtain ⟨hrow, hcounted⟩ := (hmem index csvlk).mp (List.argmin_mem hbest)
    obtain ⟨group, hgroup⟩ := identity.group_of_csvlkAt hrow
    refine ⟨index, csvlk, by simp [hgroup], hrow, hrow, hcounted, ?_⟩
    intro index' other hother hcounts
    have hplace := csvlkAt_ofNat hbuilt hother
    have hcandidate := (hmem (.ofNat index') other).mpr ⟨hplace, hcounts⟩
    have hle := List.le_of_mem_argmin hcandidate hbest
    rwa [(toNat_place hbuilt hother).2] at hle

/-- The key of the application that counts most products, or the first key of all. -/
theorem fallback_cases (hbuilt : generate document = some catalogue) (identity : HostIdentity catalogue) (application : Guid) :
    identity.groups[(identity.fallback application).1.toNat]? = some (identity.fallback application).2 ∧
      ((∃ csvlk, Widest catalogue application (identity.fallback application).1.toNat csvlk) ∨
        ((∀ csvlk ∈ catalogue.csvlks, csvlk.application ≠ some application) ∧ (identity.fallback application).1 = 0)) := by
  cases hbest : (catalogue.csvlks.zipIdx.filter fun entry => entry.1.application = some application).argmax
      fun entry => toLex (entry.1.countedIds.length, OrderDual.toDual entry.2) with
  | none =>
    have hnone := List.filter_eq_nil_iff.mp (List.argmax_eq_none.mp hbest)
    obtain ⟨first, rest, hcsvlks⟩ := List.exists_cons_of_ne_nil catalogue.csvlks_ne_nil
    have hfirst : catalogue.csvlkAt 0 = some first := by
      rw [Tables.csvlkAt, hcsvlks]
      rfl
    have hhead : catalogue.csvlks.zipIdx.head? = some (first, 0) := by rw [hcsvlks, List.zipIdx_cons, List.head?_cons]
    obtain ⟨group, hgroup⟩ := identity.group_of_csvlkAt hfirst
    have hfallback : identity.fallback application = (0, group) := by
      unfold fallback
      simp only [hbest, Option.none_or, hhead]
      rw [if_pos (by norm_num), show (UInt16.ofNat 0) = 0 from rfl, hgroup]
    rw [hfallback]
    refine ⟨hgroup, .inr ⟨fun csvlk hcsvlk happlication => ?_, rfl⟩⟩
    obtain ⟨index, hindex⟩ := List.mem_iff_getElem?.mp hcsvlk
    exact hnone (csvlk, index) (List.mem_zipIdx_iff_getElem?.mpr hindex) (decide_eq_true happlication)
  | some best =>
    obtain ⟨csvlk, index⟩ := best
    obtain ⟨hentry, happlication⟩ := List.mem_filter.mp (List.argmax_mem hbest)
    have hindex : catalogue.csvlks[index]? = some csvlk := List.mem_zipIdx_iff_getElem?.mp hentry
    obtain ⟨hlt, hplace⟩ := toNat_place hbuilt hindex
    obtain ⟨group, hgroup⟩ := identity.group_of_csvlkAt (csvlkAt_ofNat hbuilt hindex)
    have hfallback : identity.fallback application = (.ofNat index, group) := by
      simp only [fallback, hbest, Option.some_or, if_pos hlt, hgroup]
    rw [hfallback]
    refine ⟨hgroup, .inl ⟨csvlk, ?_⟩⟩
    rw [hplace]
    refine ⟨hindex, of_decide_eq_true happlication, fun index' other hother hsame => ?_⟩
    have hmem : (other, index') ∈ catalogue.csvlks.zipIdx.filter fun entry => entry.1.application = some application :=
      List.mem_filter.mpr ⟨List.mem_zipIdx_iff_getElem?.mpr hother, decide_eq_true hsame⟩
    have hle := List.le_of_mem_argmax hmem hbest
    rw [Prod.Lex.toLex_le_toLex] at hle
    exact hle

/-- A fallback stays within the application, where it has a host key. -/
theorem fallback_application (hbuilt : generate document = some catalogue) (identity : HostIdentity catalogue)
    {application : Guid} (h : ∃ csvlk ∈ catalogue.csvlks, csvlk.application = some application) :
    ∃ csvlk, catalogue.csvlkAt (identity.fallback application).1 = some csvlk ∧
      csvlk.application = some application := by
  rcases (identity.fallback_cases hbuilt application).2 with ⟨csvlk, hrow, happlication, -⟩ | ⟨hnone, -⟩
  · exact ⟨csvlk, hrow, happlication⟩
  · obtain ⟨csvlk, hcsvlk, happlication⟩ := h
    exact absurd happlication (hnone csvlk hcsvlk)

/-- The identity is the one in the place that answers. -/
theorem group_select (hbuilt : generate document = some catalogue) (identity : HostIdentity catalogue)
    (application counted : Guid) :
    identity.groups[(identity.select application counted).1.index.toNat]? =
      some (identity.select application counted).2 := by
  unfold select
  dsimp only
  generalize (catalogue.csvlksCounting counted).filterMap _ = candidates
  generalize candidates.argmin (fun candidate => toLex (candidate.2.countedIds.length, candidate.1.toNat)) = resolved
  cases hfound : resolved.bind fun candidate => (identity.groups[candidate.1.toNat]?).map fun group => (candidate.1, group) with
  | none => exact (identity.fallback_cases hbuilt application).1
  | some found =>
    obtain ⟨candidate, -, hcandidate⟩ := Option.bind_eq_some_iff.mp hfound
    obtain ⟨group, hgroup, rfl⟩ := Option.map_eq_some_iff.mp hcandidate
    exact hgroup

end HostIdentity

end Kmsrs.Policy
