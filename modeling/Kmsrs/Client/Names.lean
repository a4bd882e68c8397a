import Kmsrs.Kms.RequestFields
import Kmsrs.Policy.Drawing

/-! Names for the workstations of a load run: a fixed shape with six drawn characters. A
name of either flavour always fits the request, and is read back as it was drawn. -/

namespace Kmsrs.Client

open Kmsrs.Kms Kmsrs.Policy Draw

inductive Flavour where
  | netBios
  | dns
deriving DecidableEq

namespace Flavour

def alphabet : Flavour → List Char
  | netBios => "0123456789ABCDEFGHIJKLMNOPQRSTUVWXYZ".toList
  | dns => "0123456789abcdefghijklmnopqrstuvwxyz".toList

/-- What stands before and after the characters that are drawn. -/
def lead : Flavour → List Char
  | netBios => ['W', 'K', 'S', '-']
  | dns => ['h', 'o', 's', 't', '-']

def domain : Flavour → List Char
  | netBios => []
  | dns => ['.', 'e', 'x', 'a', 'm', 'p', 'l', 'e', '.', 'n', 'e', 't']

end Flavour

namespace Names

section
variable {ε : Type} (rng : EntropySource ε)

/-- One character from an alphabet. -/
def pick (alphabet : List Char) : Draw ε Char :=
  if 2 ^ 32 ≤ alphabet.length then fail
  else if alphabet.length = 0 then fail
  else do
    let index ← uniformBelow rng alphabet.length
    ofOption alphabet[index]?

def letters (flavour : Flavour) : Draw ε (List Char) := forEach (fun _ => pick rng flavour.alphabet) (List.range 6)

def netbios : Draw ε (List Char) := do
  let drawn ← letters rng .netBios
  pure (['W', 'K', 'S', '-'] ++ drawn)

def dns : Draw ε (List Char) := do
  let drawn ← letters rng .dns
  pure (['h', 'o', 's', 't', '-'] ++ drawn ++ ['.', 'e', 'x', 'a', 'm', 'p', 'l', 'e', '.', 'n', 'e', 't'])

def generate : Flavour → Draw ε (List Char)
  | .netBios => netbios rng
  | .dns => dns rng

end

/-! ### The names there are -/

/-- A name of a flavour. -/
def Named (flavour : Flavour) (name : List Char) : Prop :=
  ∃ drawn : List Char, drawn.length = 6 ∧ (∀ c ∈ drawn, c ∈ flavour.alphabet) ∧ name = flavour.lead ++ drawn ++ flavour.domain

variable {flavour : Flavour} {name : List Char}

theorem length_alphabet (flavour : Flavour) : flavour.alphabet.length = 36 := by
  cases flavour <;> decide

/-- Every character of a name is a digit, a letter, a hyphen or a dot. -/
theorem toNat_of_named (h : Named flavour name) : ∀ c ∈ name, 45 ≤ c.toNat ∧ c.toNat ≤ 122 := by
  obtain ⟨drawn, -, hdrawn, rfl⟩ := h
  have halphabet : ∀ c ∈ flavour.alphabet, 45 ≤ c.toNat ∧ c.toNat ≤ 122 := by cases flavour <;> decide
  have hlead : ∀ c ∈ flavour.lead, 45 ≤ c.toNat ∧ c.toNat ≤ 122 := by cases flavour <;> decide
  have hdomain : ∀ c ∈ flavour.domain, 45 ≤ c.toNat ∧ c.toNat ≤ 122 := by cases flavour <;> decide
  rw [List.forall_mem_append, List.forall_mem_append]
  exact ⟨⟨hlead, fun c hc => halphabet c (hdrawn c hc)⟩, hdomain⟩

theorem length_of_named (h : Named flavour name) : name.length ≤ 23 := by
  obtain ⟨drawn, hlength, -, rfl⟩ := h
  have hlead : flavour.lead.length ≤ 5 := by cases flavour <;> decide
  have hdomain : flavour.domain.length ≤ 12 := by cases flavour <;> decide
  rw [List.length_append, List.length_append, hlength]
  omega

/-- A name fits the field of a request. -/
theorem units_of_named (h : Named flavour name) : (encodeUtf16 name).length ≤ 63 := by
  have hunits : encodeUtf16 name = name.map fun c => UInt16.ofNat c.toNat := by
    rw [encodeUtf16, List.map_eq_flatMap]
    refine List.flatMap_congr fun c hc => ?_
    have hascii := toNat_of_named h c hc
    rw [encodeUtf16Char, if_pos (by omega)]
  rw [hunits, List.length_map]
  exact (length_of_named h).trans (by omega)

/-- With a name of its own a request is sent, and read back with the name. -/
theorem sameFields_of_named (h : Named flavour name) (fields : RequestFields) :
    ∃ body, { fields with workstationName := name }.toBody = .ok body ∧
      SameFields { fields with workstationName := name } (.fromBody body) := by
  refine ⟨_, if_neg (Nat.not_lt_of_le (units_of_named h)), sameFields_body (units_of_named h) fun c hc => ?_⟩
  have hascii := toNat_of_named h c hc
  omega

section
variable {ε : Type} {rng : EntropySource ε}

theorem generate_eq (flavour : Flavour) :
    generate rng flavour = (letters rng flavour >>= fun drawn => pure (flavour.lead ++ drawn ++ flavour.domain)) := by
  cases flavour with
  | netBios => simp only [generate, netbios, Flavour.lead, Flavour.domain, List.append_nil]
  | dns => simp only [generate, dns, Flavour.lead, Flavour.domain]

theorem pick_eq (flavour : Flavour) :
    pick rng flavour.alphabet = (uniformBelow rng 36 >>= fun index => ofOption flavour.alphabet[index]?) := by
  rw [pick, length_alphabet, if_neg (by decide), if_neg (by decide)]

theorem ensures_letters (hworks : rng.Works) (flavour : Flavour) :
    Ensures (letters rng flavour) fun drawn => drawn.length = 6 ∧ ∀ c ∈ drawn, c ∈ flavour.alphabet := by
  have hpick : Ensures (pick rng flavour.alphabet) (· ∈ flavour.alphabet) := by
    rw [pick_eq]
    refine (ensures_uniformBelow hworks 36).bind fun index hindex => .ofOption ?_
    rw [← length_alphabet flavour] at hindex
    exact ⟨_, List.getElem?_eq_getElem hindex, List.getElem_mem hindex⟩
  refine (Ensures.forEach fun _ _ => hpick).mono fun drawn hdrawn => ⟨hdrawn.length_eq.symm, fun c hc => ?_⟩
  obtain ⟨i, hi, rfl⟩ := List.mem_iff_getElem.mp hc
  exact (List.forall₂_iff_get.mp hdrawn).2 i (by rw [hdrawn.length_eq]; exact hi) hi

/-- What is generated is a name. -/
theorem ensures_generate (hworks : rng.Works) (flavour : Flavour) : Ensures (generate rng flavour) (Named flavour) := by
  rw [generate_eq]
  exact (ensures_letters hworks flavour).bind fun drawn hdrawn => .pure ⟨drawn, hdrawn.1, hdrawn.2, rfl⟩

theorem ends_generate (hworks : rng.Works) (hfair : FairSource rng) (flavour : Flavour) : Draw.Ends (generate rng flavour) := by
  rw [generate_eq]
  refine Draw.Ends.bind (Draw.Ends.forEach fun _ _ => ?_) fun drawn => .pure _
  rw [pick_eq]
  exact (ends_uniformBelow hworks hfair (by decide) (by decide)).bind fun index => .ofOption _

end

end Names

end Kmsrs.Client
