import Kmsrs.Policy.Access

/-! Who may connect: single addresses, CIDR blocks and inclusive ranges, in an
allow list and a deny list. Every address is canonical before a rule looks at
it, the peer's and the rule's own alike, so the two spellings of an IPv4 address
should never tell two rules or two peers apart. The length of a block is not
rewritten with its base, and that is the one place where they do. -/

namespace Kmsrs.Policy.Access

open Kmsrs.Bytes

/-- `u32::from` and `u128::from`: the number an address spells. -/
def value {n : ℕ} (octets : Vector UInt8 n) : ℕ := toNatLE octets.toList.reverse

/-- One entry in an access list. -/
inductive Rule where
  | address (rule : IpAddr)
  | cidr (base : IpAddr) (prefixLen : UInt8)
  | range (start stop : IpAddr)
deriving DecidableEq

/-- Shifting by the whole width or more has no result. -/
def checkedShr (width value shift : ℕ) : Option ℕ := if shift < width then some (value >>> shift) else none

/-- The top `prefixLen` bits of a number `width` bits wide, or `none` if the
prefix is too long to be meaningful. -/
def masked (width value : ℕ) (prefixLen : UInt8) : Option ℕ :=
  if width < prefixLen.toNat then none
  else if prefixLen = 0 then some 0
  else checkedShr width value (width - prefixLen.toNat)

def maskedV4 (address : Vector UInt8 4) (prefixLen : UInt8) : Option ℕ := masked 32 (value address) prefixLen

def maskedV6 (address : Vector UInt8 16) (prefixLen : UInt8) : Option ℕ := masked 128 (value address) prefixLen

/-- Whether `address` is inside `base/prefixLen`. -/
def prefixMatches (base : IpAddr) (prefixLen : UInt8) (address : IpAddr) : Bool :=
  match base, address with
  | .v4 base, .v4 address =>
    maskedV4 base prefixLen = (maskedV4 address prefixLen).filter (fun _ => prefixLen ≤ 32) ∧ prefixLen ≤ 32
  | .v6 base, .v6 address => prefixLen ≤ 128 ∧ maskedV6 base prefixLen = maskedV6 address prefixLen
  | _, _ => false

/-- Whether a rule covers an address. -/
def Rule.matches (rule : Rule) (address : IpAddr) : Bool :=
  let address := canonical address
  match rule with
  | .address rule => canonical rule = address
  | .cidr base prefixLen => prefixMatches (canonical base) prefixLen address
  | .range start stop =>
    match canonical start, canonical stop, address with
    | .v4 low, .v4 high, .v4 address => value low ≤ value address ∧ value address ≤ value high
    | .v6 low, .v6 high, .v6 address => value low ≤ value address ∧ value address ≤ value high
    | _, _, _ => false

/-- Why a connection was not admitted. -/
inductive Denial where
  | notAllowed
  | denied
deriving DecidableEq

structure AccessList where
  allow : List Rule
  deny : List Rule
deriving DecidableEq

/-- Whether an address may connect. Deny wins over allow. -/
def AccessList.check (list : AccessList) (address : IpAddr) : Except Denial Unit :=
  if list.deny.any fun rule => rule.matches address then .error .denied
  else if !list.allow.isEmpty && !(list.allow.any fun rule => rule.matches address) then .error .notAllowed
  else .ok ()

namespace AccessList

variable (list : AccessList) (address : IpAddr)

theorem check_eq_denied : list.check address = .error .denied ↔ ∃ rule ∈ list.deny, rule.matches address := by
  rw [← List.any_eq_true, check]
  split_ifs with hdeny
  · simp [hdeny]
  · simp [hdeny]
  · simp [hdeny]

theorem check_eq_notAllowed : list.check address = .error .notAllowed ↔
    (¬∃ rule ∈ list.deny, rule.matches address) ∧
      list.allow ≠ [] ∧ ¬∃ rule ∈ list.allow, rule.matches address := by
  rw [← List.any_eq_true, ← List.any_eq_true, check]
  split_ifs with hdeny hallow
  · simp [hdeny]
  · simpa [hdeny] using hallow
  · simpa [hdeny] using hallow

end AccessList

/-! ### What a rule is for -/

/-- `::ffff:a.b.c.d` -/
def mapped (octets : Vector UInt8 4) : Vector UInt8 16 :=
  Vector.append #v[0, 0, 0, 0, 0, 0, 0, 0, 0, 0, 0xFF, 0xFF] octets

/-- Every address as a dual-stack socket writes it. -/
def dualStack : IpAddr → Vector UInt8 16
  | .v4 octets => mapped octets
  | .v6 octets => octets

def IpAddr.isIpv4 : IpAddr → Bool
  | .v4 _ => true
  | .v6 _ => false

/-- Two spellings of an address are in one family. -/
def family (address : IpAddr) : Bool := (canonical address).isIpv4

/-- The addresses a rule is written to cover. A block holds the addresses of its
base's family that agree with the base on its first bits, each written as the
base is; a range holds those between its ends. -/
def Rule.Covers : Rule → IpAddr → Prop
  | .address rule, peer => canonical peer = canonical rule
  | .cidr (.v4 base) prefixLen, peer =>
    prefixLen.toNat ≤ 32 ∧ ∃ octets, canonical peer = .v4 octets ∧
      LeadingBits 32 prefixLen.toNat (value base) (value octets)
  | .cidr (.v6 base) prefixLen, peer =>
    prefixLen.toNat ≤ 128 ∧ family peer = family (.v6 base) ∧
      LeadingBits 128 prefixLen.toNat (value base) (value (dualStack peer))
  | .range start stop, peer =>
    (family start = family peer ∧ family stop = family peer) ∧
      value (dualStack start) ≤ value (dualStack peer) ∧ value (dualStack peer) ≤ value (dualStack stop)

/-- One rule in two spellings: `a.b.c.d/p` is `::ffff:a.b.c.d/(96 + p)`. -/
inductive Rule.Respells : Rule → Rule → Prop
  | address {rule rule' : IpAddr} (h : canonical rule = canonical rule') :
      Respells (.address rule) (.address rule')
  | range {start stop start' stop' : IpAddr} (hstart : canonical start = canonical start')
      (hstop : canonical stop = canonical stop') : Respells (.range start stop) (.range start' stop')
  | cidr (base : IpAddr) (prefixLen : UInt8) : Respells (.cidr base prefixLen) (.cidr base prefixLen)
  | cidrMapped (base : Vector UInt8 4) {prefixLen prefixLen' : UInt8}
      (h : prefixLen'.toNat = 96 + prefixLen.toNat) :
      Respells (.cidr (.v4 base) prefixLen) (.cidr (.v6 (mapped base)) prefixLen')

/-- A block whose base is in the mapped form, of a length that form can have. -/
def Rule.MappedBlock : Rule → Prop
  | .cidr (.v6 base) prefixLen => (toIpv4Mapped base).isSome ∧ 0 < prefixLen.toNat ∧ prefixLen.toNat ≤ 128
  | _ => False

theorem value_lt {n : ℕ} (octets : Vector UInt8 n) : value octets < 2 ^ (8 * n) := by
  have h := toNatLE_lt octets.toList.reverse
  rw [pow_mul]
  simpa [value] using h

theorem toList_mapped (octets : Vector UInt8 4) :
    (mapped octets).toList = [0, 0, 0, 0, 0, 0, 0, 0, 0, 0, 0xFF, 0xFF] ++ octets.toList :=
  Vector.toList_append

theorem toIpv4Mapped_eq_some {octets : Vector UInt8 16} {inner : Vector UInt8 4} :
    toIpv4Mapped octets = some inner ↔ octets = mapped inner := by
  rw [toIpv4Mapped, ← Vector.toList_inj, toList_mapped]
  constructor
  · intro h
    split_ifs at h with hhead
    rw [← List.take_append_drop 12 octets.toList, hhead, ← Option.some.inj h, Vector.toList_drop]
  · intro h
    rw [if_pos (by rw [h]; rfl), Option.some_inj, ← Vector.toList_inj, Vector.toList_drop, h]
    rfl

theorem canonical_mapped (octets : Vector UInt8 4) : canonical (.v6 (mapped octets)) = .v4 octets := by
  rw [canonical, toIpv4Mapped_eq_some.mpr rfl]
  rfl

theorem canonical_of_none {octets : Vector UInt8 16} (h : toIpv4Mapped octets = none) :
    canonical (.v6 octets) = .v6 octets := by
  rw [canonical, h]
  rfl

theorem dualStack_canonical (address : IpAddr) : dualStack (canonical address) = dualStack address := by
  cases address with
  | v4 octets => rfl
  | v6 octets =>
    cases h : toIpv4Mapped octets with
    | none => rw [canonical_of_none h]
    | some inner =>
      rw [toIpv4Mapped_eq_some.mp h, canonical_mapped]
      rfl

theorem value_mapped (octets : Vector UInt8 4) : value (mapped octets) = 2 ^ 32 * 0xFFFF + value octets := by
  have hlen : octets.toList.reverse.length = 4 := by simp
  rw [value, toList_mapped, List.reverse_append, toNatLE_append, hlen, ← value, Nat.add_comm]
  rfl

/-- The first 96 bits of a mapped address are the same for all of them. -/
theorem leadingBits_mapped (octets octets' : Vector UInt8 4) {count : ℕ} (h : count ≤ 96) :
    LeadingBits 128 count (value (mapped octets)) (value (mapped octets')) := by
  intro i hi
  have hoctets := value_lt octets
  have hoctets' := value_lt octets'
  rw [value_mapped, value_mapped, Nat.testBit_two_pow_mul_add _ hoctets, Nat.testBit_two_pow_mul_add _ hoctets',
    if_neg (by omega), if_neg (by omega)]

/-! ### What the code matches -/

/-- The top bits as the code takes them agree where the first bits do. -/
theorem masked_eq_iff {width m n : ℕ} (hm : m < 2 ^ width) (hn : n < 2 ^ width)
    {prefixLen : UInt8} (h : prefixLen.toNat ≤ width) :
    masked width m prefixLen = masked width n prefixLen ↔ LeadingBits width prefixLen.toNat m n := by
  by_cases hzero : prefixLen = 0
  · subst hzero
    simp [masked, LeadingBits]
  · have hpos : 0 < prefixLen.toNat := Nat.pos_of_ne_zero fun h0 => hzero (UInt8.toNat_inj.mp h0)
    rw [leadingBits_iff hm hn h, masked, masked, if_neg h.not_gt, if_neg h.not_gt, if_neg hzero, if_neg hzero,
      checkedShr, checkedShr, if_pos (by omega), if_pos (by omega), Option.some_inj]

theorem prefixMatches_v4 (base octets : Vector UInt8 4) (prefixLen : UInt8) :
    prefixMatches (.v4 base) prefixLen (.v4 octets) = true ↔
      prefixLen.toNat ≤ 32 ∧ LeadingBits 32 prefixLen.toNat (value base) (value octets) := by
  have hle : prefixLen ≤ 32 ↔ prefixLen.toNat ≤ 32 := UInt8.le_iff_toNat_le
  rw [prefixMatches, decide_eq_true_iff]
  by_cases h : prefixLen.toNat ≤ 32
  · have hfilter : ∀ o : Option ℕ, o.filter (fun _ => prefixLen ≤ 32) = o := by
      intro o
      cases o <;> simp [hle.mpr h]
    rw [hfilter, maskedV4, maskedV4, masked_eq_iff (value_lt base) (value_lt octets) h, and_comm, hle]
  · simp [hle, h]

theorem prefixMatches_v6 (base octets : Vector UInt8 16) (prefixLen : UInt8) :
    prefixMatches (.v6 base) prefixLen (.v6 octets) = true ↔
      prefixLen.toNat ≤ 128 ∧ LeadingBits 128 prefixLen.toNat (value base) (value octets) := by
  rw [prefixMatches, decide_eq_true_iff, UInt8.le_iff_toNat_le]
  apply and_congr_right
  intro h
  exact masked_eq_iff (value_lt base) (value_lt octets) h

namespace Rule

/-- A rule never tells two spellings of a peer apart. -/
theorem matches_congr (rule : Rule) {peer peer' : IpAddr} (h : canonical peer = canonical peer') :
    rule.matches peer = rule.matches peer' := by
  simp only [Rule.matches, h]

/-- The rule covers exactly what it is written to cover. -/
def Exact (rule : Rule) : Prop := ∀ peer, rule.matches peer = true ↔ rule.Covers peer

theorem exact_range (start stop : IpAddr) : Exact (.range start stop) := by
  intro peer
  simp only [Rule.matches, Covers, family]
  rw [← dualStack_canonical start, ← dualStack_canonical stop, ← dualStack_canonical peer]
  cases canonical start <;> cases canonical stop <;> cases canonical peer <;>
    simp [IpAddr.isIpv4, dualStack, value_mapped]

theorem exact_cidr_v4 (base : Vector UInt8 4) (prefixLen : UInt8) : Exact (.cidr (.v4 base) prefixLen) := by
  intro peer
  rw [Rule.matches, Covers]
  cases hpeer : canonical peer with
  | v4 octets =>
    rw [show canonical (.v4 base) = .v4 base from rfl, prefixMatches_v4]
    simp
  | v6 octets => simp [canonical, prefixMatches]

theorem exact_cidr_v6 {base : Vector UInt8 16} (h : toIpv4Mapped base = none) (prefixLen : UInt8) :
    Exact (.cidr (.v6 base) prefixLen) := by
  intro peer
  rw [Rule.matches, Covers, family, family, canonical_of_none h, ← dualStack_canonical peer]
  cases canonical peer with
  | v4 octets => simp [prefixMatches, IpAddr.isIpv4]
  | v6 octets =>
    rw [prefixMatches_v6]
    simp [IpAddr.isIpv4, dualStack]

/-- A base in the mapped form is read as an IPv4 base, under the length that was
meant for the mapped form. -/
theorem matches_cidr_mapped (base octets : Vector UInt8 4) (prefixLen : UInt8) :
    (cidr (.v6 (mapped base)) prefixLen).matches (.v4 octets) = true ↔
      prefixLen.toNat ≤ 32 ∧ LeadingBits 32 prefixLen.toNat (value base) (value octets) := by
  rw [Rule.matches, canonical_mapped]
  exact prefixMatches_v4 base octets prefixLen

theorem covers_cidr_mapped (base octets : Vector UInt8 4) (prefixLen : UInt8) :
    (cidr (.v6 (mapped base)) prefixLen).Covers (.v4 octets) ↔
      prefixLen.toNat ≤ 128 ∧ LeadingBits 128 prefixLen.toNat (value (mapped base)) (value (mapped octets)) := by
  rw [Covers, family, family, canonical_mapped]
  simp [canonical, IpAddr.isIpv4, dualStack]

/-- Some IPv4 address differs from the base in its first bit. -/
theorem exists_first_bit_ne (base : Vector UInt8 4) :
    ∃ octets : Vector UInt8 4, (value base).testBit 31 ≠ (value octets).testBit 31 := by
  cases h : (value base).testBit 31 with
  | false => exact ⟨#v[128, 0, 0, 0], by decide⟩
  | true => exact ⟨#v[0, 0, 0, 0], by decide⟩

theorem exact_cidr_mapped_iff (base : Vector UInt8 4) (prefixLen : UInt8) :
    Exact (.cidr (.v6 (mapped base)) prefixLen) ↔ ¬(0 < prefixLen.toNat ∧ prefixLen.toNat ≤ 128) := by
  constructor
  · rintro h ⟨hpos, hle⟩
    by_cases hshort : prefixLen.toNat ≤ 32
    -- a short prefix is compared inside the IPv4 address
    · obtain ⟨octets, hbit⟩ := exists_first_bit_ne base
      have hmatch := (h (.v4 octets)).mpr ((covers_cidr_mapped base octets prefixLen).mpr
        ⟨hle, leadingBits_mapped base octets (by omega)⟩)
      exact hbit (((matches_cidr_mapped base octets prefixLen).mp hmatch).2 0 hpos)
    -- a long one is too long for the family, and not even the base matches
    · have hmatch := (h (.v4 base)).mpr ((covers_cidr_mapped base base prefixLen).mpr ⟨hle, fun _ _ => rfl⟩)
      exact hshort ((matches_cidr_mapped base base prefixLen).mp hmatch).1
  · intro hlen peer
    rw [Rule.matches, Covers, family, family, canonical_mapped, ← dualStack_canonical peer]
    cases canonical peer with
    | v4 octets =>
      rw [prefixMatches_v4]
      by_cases hzero : prefixLen.toNat = 0
      · simp [hzero, LeadingBits, IpAddr.isIpv4]
      · constructor
        · rintro ⟨hle, -⟩
          omega
        · rintro ⟨hle, -⟩
          omega
    | v6 octets => simp [prefixMatches, IpAddr.isIpv4]

theorem exact_iff_not_mappedBlock (rule : Rule) : rule.Exact ↔ ¬rule.MappedBlock := by
  cases rule with
  | address rule => simp [Exact, Covers, Rule.matches, MappedBlock, eq_comm]
  | range start stop => simp [exact_range, MappedBlock]
  | cidr base prefixLen =>
    cases base with
    | v4 base => simp [exact_cidr_v4, MappedBlock]
    | v6 base =>
      cases h : toIpv4Mapped base with
      | none => simp [exact_cidr_v6 h, MappedBlock, h]
      | some inner =>
        have hbase := toIpv4Mapped_eq_some.mp h
        subst hbase
        simp [exact_cidr_mapped_iff, MappedBlock, h]

/-- Two spellings that both cover what they should cover the same. -/
theorem Respells.matches_eq {rule rule' : Rule} (h : Respells rule rule') (hblock : ¬rule'.MappedBlock)
    {peer peer' : IpAddr} (hpeer : canonical peer = canonical peer') : rule.matches peer = rule'.matches peer' := by
  cases h with
  | address h => simp [Rule.matches, h, hpeer]
  | range hstart hstop => simp [Rule.matches, hstart, hstop, hpeer]
  | cidr base prefixLen => exact matches_congr _ hpeer
  | @cidrMapped base prefixLen prefixLen' h =>
    -- only prefixes that neither family has are left, and nothing matches them
    have hlong : ¬prefixLen'.toNat ≤ 128 := fun hle =>
      hblock ⟨by rw [toIpv4Mapped_eq_some.mpr rfl]; rfl, by omega, hle⟩
    have hnone : ∀ q : UInt8, 32 < q.toNat → ∀ address, prefixMatches (.v4 base) q address = false := by
      intro q hq address
      cases address with
      | v4 octets => exact Bool.eq_false_iff.mpr fun h => absurd ((prefixMatches_v4 base octets q).mp h).1 hq.not_ge
      | v6 octets => rfl
    rw [Rule.matches, Rule.matches, canonical_mapped, show canonical (.v4 base) = .v4 base from rfl]
    rw [hnone _ (by omega), hnone _ (by omega)]

/-- The two spellings of a rule agree on every peer and cover what they are
written to cover exactly when neither is a block with a mapped base; what the
list says is decided by its rules alone. -/
theorem spellings_interchangeable_iff {rule rule' : Rule} (h : Respells rule rule') (list : AccessList)
    (address : IpAddr) :
    (((∀ peer peer', canonical peer = canonical peer' → rule.matches peer = rule'.matches peer') ∧
        (∀ peer, rule.matches peer = true ↔ rule.Covers peer) ∧
        (∀ peer, rule'.matches peer = true ↔ rule'.Covers peer)) ↔
      ¬rule.MappedBlock ∧ ¬rule'.MappedBlock) ∧
    (list.check address = .error .denied ↔ ∃ rule ∈ list.deny, rule.matches address) ∧
    (list.check address = .error .notAllowed ↔
      (¬∃ rule ∈ list.deny, rule.matches address) ∧
        list.allow ≠ [] ∧ ¬∃ rule ∈ list.allow, rule.matches address) := by
  refine ⟨⟨?_, ?_⟩, list.check_eq_denied address, list.check_eq_notAllowed address⟩
  · rintro ⟨-, hexact, hexact'⟩
    exact ⟨(exact_iff_not_mappedBlock rule).mp hexact, (exact_iff_not_mappedBlock rule').mp hexact'⟩
  · rintro ⟨hblock, hblock'⟩
    exact ⟨fun _ _ hpeer => h.matches_eq hblock' hpeer, (exact_iff_not_mappedBlock rule).mpr hblock, (exact_iff_not_mappedBlock rule').mpr hblock'⟩

/-- A range with each end in the other spelling. -/
theorem respelled_ends_same_range :
    (range (.v4 #v[10, 0, 0, 10]) (.v6 (mapped #v[10, 0, 0, 20]))).matches (.v4 #v[10, 0, 0, 20]) =
      (range (.v6 (mapped #v[10, 0, 0, 10])) (.v4 #v[10, 0, 0, 20])).matches (.v6 (mapped #v[10, 0, 0, 20])) :=
  ((@spellings_interchangeable_iff (range (.v4 #v[10, 0, 0, 10]) (.v6 (mapped #v[10, 0, 0, 20])))
      (range (.v6 (mapped #v[10, 0, 0, 10])) (.v4 #v[10, 0, 0, 20]))
      (.range (by decide) (by decide)) ⟨[], []⟩ (.v4 #v[10, 0, 0, 20])).1.mpr ⟨id, id⟩).1 _ _ (by decide)

/-- `::ffff:10.0.0.0/104` covers nothing, not even `10.1.2.3`. -/
theorem mapped_block_matches_nothing :
    ¬∀ rule rule' : Rule, Respells rule rule' → ∀ peer, rule.matches peer = rule'.matches peer := by
  intro h
  have hpeer := h (cidr (.v4 #v[10, 0, 0, 0]) 8) (cidr (.v6 (mapped #v[10, 0, 0, 0])) 104) (.cidrMapped _ (by decide))
    (.v4 #v[10, 1, 2, 3])
  exact absurd hpeer (by decide)

end Rule

end Kmsrs.Policy.Access
