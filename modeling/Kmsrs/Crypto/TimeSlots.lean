import Kmsrs.Crypto.Tags
import Kmsrs.Lib.Rows

/-! The version 6 time slots told apart. A slot value is an affine image of the
slot number modulo `2 ^ 64`; the multiplier is odd, so two values are equal just
when the numbers differ by a multiple of its inverse, and the multiples that the
offsets give are far larger than any slot number. -/

namespace Kmsrs.Crypto.V6

/-! ### Affine images of short ranges -/

/-- Within `span` of zero on either side, modulo `2 ^ 64`. -/
def Near (span : ℕ) (x : UInt64) : Prop := x.toNat ≤ span ∨ 2 ^ 64 - span ≤ x.toNat

instance (span : ℕ) (x : UInt64) : Decidable (Near span x) := inferInstanceAs (Decidable (_ ∨ _))

theorem near_sub {span : ℕ} {x y : UInt64} (hx : x.toNat ≤ span) (hy : y.toNat ≤ span) : Near span (x - y) := by
  have hlt := x.toNat_lt
  have hlt' := y.toNat_lt
  rw [Near, UInt64.toNat_sub]
  omega

/-- Multiplying by a unit and shifting is undone by its inverse. -/
theorem affine_eq_iff {unit inverse : UInt64} (h : unit * inverse = 1) (x y shift a b : UInt64) :
    x * unit + shift + a = y * unit + shift + b ↔ x - y = (b - a) * inverse := by
  have hback : (x - y) * unit * inverse = x - y := by rw [UInt64.mul_assoc, h, UInt64.mul_one]
  constructor
  · intro heq
    have hdiff : (x - y) * unit = b - a := by grind
    rw [← hback, hdiff]
  · intro heq
    have hdiff : (x - y) * unit = b - a := by
      rw [heq, UInt64.mul_assoc, UInt64.mul_comm inverse, h, UInt64.mul_one]
    grind

/-! ### The slots -/

/-- The inverse of the multiplier modulo `2 ^ 64`. -/
def inverseC2 : UInt64 := 0x8D87D2A32D4FEFE5

theorem timeC2_mul_inverseC2 : timeC2 * inverseC2 = 1 := by decide

/-- The number of the last slot that a 64-bit time falls in. -/
def lastSlot : ℕ := (2 ^ 64 - 1) / timeC1.toNat

theorem slotNumber_le (clientTimeTicks : UInt64) : (clientTimeTicks / timeC1).toNat ≤ lastSlot := by
  have hlt := clientTimeTicks.toNat_lt
  rw [UInt64.toNat_div]
  exact Nat.div_le_div_right (by omega)

/-- Two offsets apart, the slot numbers would have to lie further apart than
there are slots. -/
theorem far_of_ne {offset other : SlotOffset} (h : offset ≠ other) :
    ¬ Near lastSlot ((other.tickAdjustment - offset.tickAdjustment) * inverseC2) := by
  cases offset <;> cases other <;> first | exact absurd rfl h | decide

theorem timeSlot_eq_iff (time later : UInt64) (offset other : SlotOffset) :
    timeSlot time offset = timeSlot later other ↔ offset = other ∧ time / timeC1 = later / timeC1 := by
  have haffine := affine_eq_iff timeC2_mul_inverseC2 (time / timeC1) (later / timeC1) timeC3
    offset.tickAdjustment other.tickAdjustment
  rw [timeSlot, timeSlot, haffine]
  constructor
  · intro hdiff
    have hnear := near_sub (slotNumber_le time) (slotNumber_le later)
    rw [hdiff] at hnear
    obtain rfl : offset = other := by_contra fun hne => far_of_ne hne hnear
    rw [UInt64.sub_self, UInt64.zero_mul, UInt64.sub_eq_iff_eq_add, UInt64.zero_add] at hdiff
    exact ⟨rfl, hdiff⟩
  · rintro ⟨rfl, hslot⟩
    rw [hslot, UInt64.sub_self, UInt64.sub_self, UInt64.zero_mul]

/-! ### The tags -/

/-- No two slot values give one key: what is assumed of SHA-256. -/
def SeparatesSlots (D : Digests) : Prop :=
  ∀ time later offset other, timeSlotKey D time offset = timeSlotKey D later other →
    timeSlot time offset = timeSlot later other

/-- No two slot keys give one tag over the message: what is assumed of
HMAC-SHA256. -/
def SeparatesKeys (D : Digests) (message : List UInt8) : Prop :=
  ∀ time later offset other, tag D time offset message = tag D later other message →
    timeSlotKey D time offset = timeSlotKey D later other

theorem tag_eq_iff {D : Digests} {message : List UInt8} (hslots : SeparatesSlots D) (hkeys : SeparatesKeys D message)
    (time later : UInt64) (offset other : SlotOffset) :
    tag D time offset message = tag D later other message ↔ offset = other ∧ time / timeC1 = later / timeC1 := by
  rw [← timeSlot_eq_iff]
  constructor
  · exact fun htag => hslots _ _ _ _ (hkeys _ _ _ _ htag)
  · intro hslot
    rw [tag, tag, timeSlotKey, timeSlotKey, hslot]

/-- A slot value tells the slot and the offset, so verification reports the
offset that a tag was made with and refuses a tag made for another slot. -/
theorem slots_identified :
    (∀ (time later : UInt64) (offset other : SlotOffset),
      timeSlot time offset = timeSlot later other ↔ offset = other ∧ time / timeC1 = later / timeC1) ∧
    ∀ (D : Digests) (message : List UInt8), SeparatesSlots D → SeparatesKeys D message →
      ∀ (time later : UInt64) (offset : SlotOffset),
        verify D later message (tag D time offset message) =
          if time / timeC1 = later / timeC1 then some offset else none := by
  refine ⟨timeSlot_eq_iff, ?_⟩
  intro D message hslots hkeys time later offset
  have hmatches : ∀ tried, (tag D later tried message == tag D time offset message) =
      (decide (tried = offset) && decide (time / timeC1 = later / timeC1)) := by
    intro tried
    rw [Bool.eq_iff_iff, beq_iff_eq, tag_eq_iff hslots hkeys, Bool.and_eq_true, decide_eq_true_iff, decide_eq_true_iff,
      eq_comm (a := later / timeC1)]
  simp only [verify, hmatches]
  split_ifs with hslot
  · cases offset <;> simp [SlotOffset.all, hslot]
  · simp [hslot]

/-! ### Recorded digests -/

/-- Slot values at the times `0` and `timeC1`, each with its digest and with the
tag of `[0x60]` under the key that the digest gives. -/
def recordedRows : List (UInt64 × Vector UInt8 32 × Vector UInt8 32) :=
  [(0x3156CD3844BFBDBD,
    (#v[0xD5, 0x95, 0x47, 0x75, 0xEC, 0x0D, 0xCD, 0xAC, 0x9A, 0x2E, 0xCB, 0x25, 0x0E, 0x9D, 0x4B, 0xA9,
      0x1A, 0xA9, 0xB3, 0x6F, 0x2B, 0x10, 0x63, 0xE4, 0xBD, 0xA3, 0xDE, 0x2E, 0x21, 0xA8, 0x7C, 0xD2],
    #v[0xC5, 0x00, 0x4F, 0x11, 0xA4, 0x75, 0xB9, 0xE2, 0xFE, 0x7E, 0x1B, 0xEC, 0xE6, 0x9E, 0x2D, 0x4F,
      0xCE, 0xE6, 0xF5, 0x81, 0x4F, 0x8B, 0x79, 0x71, 0x9D, 0x33, 0xD5, 0xC1, 0x23, 0xC3, 0x78, 0xD1])),
  (0x3156CD5AC628477A,
    (#v[0x2E, 0xD2, 0x63, 0x10, 0xFC, 0x1F, 0x55, 0x3B, 0x4A, 0xEF, 0x38, 0x4E, 0x43, 0xEF, 0xDB, 0xE1,
      0xAC, 0x0C, 0x6F, 0x55, 0xAA, 0x8C, 0xAB, 0xC2, 0x64, 0xC0, 0x64, 0x2E, 0xB9, 0x61, 0x54, 0x0A],
    #v[0xC7, 0xCF, 0xB8, 0x80, 0xE2, 0xC5, 0xD7, 0x78, 0xDF, 0x50, 0xBC, 0xBB, 0x91, 0xFE, 0x9B, 0x0B,
      0x0D, 0xA7, 0x69, 0xC3, 0xCD, 0x4A, 0x30, 0xEA, 0x4D, 0x4F, 0xCE, 0x65, 0x8B, 0xC2, 0xC2, 0x30])),
  (0x3156CD7D4790D137,
    (#v[0x48, 0xA0, 0x68, 0xFE, 0x47, 0x3A, 0x65, 0x4A, 0x56, 0x37, 0x15, 0x7A, 0xBA, 0x2A, 0xC5, 0x8E,
      0x1C, 0x72, 0xD8, 0x1B, 0x00, 0xA9, 0xC7, 0x1D, 0x38, 0x48, 0x41, 0xDB, 0x28, 0x74, 0x17, 0x21],
    #v[0xCF, 0xB9, 0x27, 0x3A, 0x6E, 0xD5, 0x6D, 0x6C, 0x9A, 0x97, 0xF2, 0xDD, 0xBA, 0x2E, 0x72, 0x78,
      0x05, 0x89, 0x27, 0x48, 0xA3, 0xCE, 0xB5, 0x7C, 0x5E, 0xBF, 0x22, 0xEC, 0x73, 0x2B, 0xB3, 0x25])),
  (0x3156CD58D17A73AA,
    (#v[0x91, 0xBE, 0x68, 0xF8, 0x88, 0x59, 0xA6, 0x99, 0x25, 0xB5, 0x7C, 0x6C, 0x21, 0x0E, 0x07, 0x72,
      0x4E, 0x2E, 0x3B, 0xFC, 0xA7, 0x10, 0x9B, 0x7C, 0x00, 0xB5, 0x47, 0xD7, 0x64, 0x39, 0xCB, 0x72],
    #v[0x4F, 0x2C, 0xE0, 0x6C, 0x84, 0x44, 0x8D, 0x02, 0xB2, 0x08, 0x9D, 0x16, 0x6E, 0xFB, 0x68, 0xE0,
      0xCD, 0xC3, 0xD4, 0x32, 0x0F, 0x49, 0x30, 0xF1, 0xF3, 0x2F, 0xC8, 0x0C, 0xF1, 0x4B, 0x69, 0x8F])),
  (0x3156CD7B52E2FD67,
    (#v[0x2B, 0x0A, 0xE8, 0xE4, 0xA8, 0x8C, 0x25, 0x17, 0x73, 0x09, 0x69, 0x84, 0xE1, 0xCA, 0x4F, 0xCE,
      0x0D, 0xDC, 0xEF, 0x91, 0x98, 0xC7, 0x94, 0x4A, 0xCD, 0xD4, 0x8F, 0x5D, 0xBB, 0xB4, 0xDF, 0x48],
    #v[0xCF, 0x12, 0x45, 0x4E, 0x55, 0xE3, 0xD4, 0x37, 0x24, 0x60, 0x2A, 0xBF, 0x31, 0x44, 0xCB, 0x51,
      0x62, 0x79, 0xC8, 0xB1, 0x39, 0x62, 0x80, 0xCB, 0xD8, 0x23, 0x42, 0xAC, 0x34, 0x50, 0xDE, 0x9F])),
  (0x3156CD9DD44B8724,
    (#v[0xDE, 0xBB, 0x82, 0x5B, 0x10, 0x9D, 0x54, 0xAC, 0xEE, 0xE8, 0xE8, 0x22, 0xF0, 0x06, 0xE4, 0xCF,
      0x43, 0x7A, 0xFF, 0xAD, 0xAA, 0xDF, 0x80, 0x81, 0xA3, 0x2D, 0x38, 0x77, 0x8F, 0xE3, 0xD1, 0x1C],
    #v[0xB5, 0xF2, 0x96, 0xD5, 0x3D, 0xCE, 0x43, 0xA3, 0x0E, 0xF9, 0x48, 0x64, 0x4E, 0x76, 0xE8, 0x65,
      0xB1, 0x1E, 0xF8, 0xEC, 0x47, 0xBA, 0x1D, 0x33, 0xE3, 0x74, 0x53, 0xAB, 0xFA, 0x49, 0xDD, 0xAA]))]

/-- The bytes in the half that is used, filled up with zeros. -/
def spread (bytes : List UInt8) : Vector UInt8 32 := (Layout.bytes 32).decode (List.replicate 16 0 ++ bytes)

/-- A key that fills a block up with zeros, as `Digests.hmacSha256` passes it. -/
def blockKey (key : Vector UInt8 16) : Vector UInt8 64 := key ++ (Vector.replicate 48 0 : Vector UInt8 48)

/-- The recorded digests; for any other input, one that shows it. -/
def recorded : Digests where
  sha256 data := ((recordedRows.find? fun row => Layout.u64.encode row.1 == data).map (·.2.1)).getD (spread data)
  hmac key data := ((recordedRows.find? fun row =>
    key == blockKey (lastHalf row.2.1) && data == [0x60]).map (·.2.2)).getD (spread (key.toList.take 16))

theorem lastHalf_spread (bytes : List UInt8) : lastHalf (spread bytes) = (Layout.bytes 16).decode bytes := by
  apply Vector.ext
  intro i hi
  simp [lastHalf, spread, Layout.bytes]

/-- The key of a slot value that is not recorded. -/
def shown (slot : UInt64) : Vector UInt8 16 := (Layout.bytes 16).decode (Layout.u64.encode slot)

theorem shown_injective : Function.Injective shown := by
  intro slot other h
  have hbytes : Layout.u64.encode slot = Layout.u64.encode other := by
    refine List.ext_getElem (by simp) fun i hslot hother => ?_
    have hlt : i < 16 := by
      rw [Layout.length_encode, Layout.size_u64] at hslot
      omega
    have hget : (Layout.u64.encode slot)[i]?.getD 0 = (Layout.u64.encode other)[i]?.getD 0 := by
      simpa [shown, Layout.bytes] using congrArg (·[i]) h
    rwa [List.getElem?_eq_getElem hslot, List.getElem?_eq_getElem hother] at hget
  rw [← Layout.u64.decode_encode slot, hbytes, Layout.u64.decode_encode]

theorem shown_last (slot : UInt64) : (shown slot)[15] = 0 := by
  simp [shown, Layout.bytes]

/-- The rows are told apart by their keys and by their tags, and from every key
that is shown. -/
theorem recordedRows_apart : (∀ row ∈ recordedRows,
      lastHalf (recorded.sha256 (Layout.u64.encode row.1)) = lastHalf row.2.1 ∧
      lastHalf (recorded.hmac (blockKey (lastHalf row.2.1)) [0x60]) = lastHalf row.2.2 ∧
      (lastHalf row.2.1)[15] ≠ 0 ∧ (lastHalf row.2.2)[15] ≠ 0) ∧
    (recordedRows.map fun row => lastHalf row.2.1).Nodup ∧ (recordedRows.map fun row => lastHalf row.2.2).Nodup := by
  decide +kernel

theorem injective_of_recorded {h : UInt64 → Vector UInt8 16}
    {half : UInt64 × Vector UInt8 32 × Vector UInt8 32 → Vector UInt8 16}
    (hrows : ∀ row ∈ recordedRows, h row.1 = half row ∧ (half row)[15] ≠ 0)
    (hnodup : (recordedRows.map half).Nodup)
    (hrest : ∀ slot, (∀ row ∈ recordedRows, row.1 ≠ slot) → h slot = shown slot) : Function.Injective h := by
  have hother {row} (hrow : row ∈ recordedRows) {slot : UInt64} (hslot : ∀ row ∈ recordedRows, row.1 ≠ slot) :
      h row.1 ≠ h slot := by
    intro heq
    apply (hrows row hrow).2
    rw [← (hrows row hrow).1, heq, hrest slot hslot, shown_last]
  intro slot other heq
  by_cases hslot : ∃ row ∈ recordedRows, row.1 = slot
  · obtain ⟨row, hrow, rfl⟩ := hslot
    by_cases hseen : ∃ row ∈ recordedRows, row.1 = other
    · obtain ⟨row', hrow', rfl⟩ := hseen
      rw [(hrows row hrow).1, (hrows row' hrow').1] at heq
      rw [List.inj_on_of_nodup_map hnodup hrow hrow' heq]
    · exact absurd heq (hother hrow fun row' hrow' hne => hseen ⟨row', hrow', hne⟩)
  · have hslot' : ∀ row ∈ recordedRows, row.1 ≠ slot := fun row hrow hne => hslot ⟨row, hrow, hne⟩
    by_cases hseen : ∃ row ∈ recordedRows, row.1 = other
    · obtain ⟨row', hrow', rfl⟩ := hseen
      exact absurd heq.symm (hother hrow' hslot')
    · rw [hrest slot hslot', hrest other fun row hrow hne => hseen ⟨row, hrow, hne⟩] at heq
      exact shown_injective heq

/-- The key of a slot value, and the tag of the message under it. -/
def recordedKey (slot : UInt64) : Vector UInt8 16 := lastHalf (recorded.sha256 (Layout.u64.encode slot))

def recordedTag (slot : UInt64) : Vector UInt8 16 := lastHalf (recorded.hmac (blockKey (recordedKey slot)) [0x60])

theorem recordedKey_of_ne {slot : UInt64} (h : ∀ row ∈ recordedRows, row.1 ≠ slot) : recordedKey slot = shown slot := by
  have hnone : (recordedRows.find? fun row => Layout.u64.encode row.1 == Layout.u64.encode slot) = none := by
    rw [List.find?_eq_none]
    intro row hrow hsame
    apply h row hrow
    rw [← Layout.u64.decode_encode row.1, beq_iff_eq.mp hsame, Layout.u64.decode_encode]
  simp only [recordedKey, recorded, hnone, Option.map_none, Option.getD_none]
  exact lastHalf_spread _

theorem recordedTag_of_ne {slot : UInt64} (h : ∀ row ∈ recordedRows, row.1 ≠ slot) : recordedTag slot = shown slot := by
  have hfront (key : Vector UInt8 16) : (blockKey key).toList.take 16 = key.toList := by
    rw [blockKey, Vector.toList_append, List.take_left' Vector.length_toList]
  have hnone : (recordedRows.find? fun row =>
      blockKey (shown slot) == blockKey (lastHalf row.2.1) && ([0x60] : List UInt8) == [0x60]) = none := by
    rw [List.find?_eq_none]
    intro row hrow hsame
    rw [Bool.and_eq_true, beq_iff_eq] at hsame
    have hkey := congrArg (List.take 16 ·.toList) hsame.1
    simp only [hfront] at hkey
    apply (recordedRows_apart.1 row hrow).2.2.1
    rw [← Vector.toList_inj.mp hkey, shown_last]
  simp only [recordedTag, recordedKey_of_ne h, recorded, hnone, Option.map_none, Option.getD_none, hfront]
  rw [lastHalf_spread, Layout.decode_bytes_toList]

theorem separatesSlots_recorded : SeparatesSlots recorded := by
  have hinjective : Function.Injective recordedKey :=
    injective_of_recorded (fun row hrow => ⟨(recordedRows_apart.1 row hrow).1, (recordedRows_apart.1 row hrow).2.2.1⟩)
      recordedRows_apart.2.1 fun _ => recordedKey_of_ne
  exact fun _ _ _ _ h => hinjective h

theorem separatesKeys_recorded : SeparatesKeys recorded [0x60] := by
  have hrows : ∀ row ∈ recordedRows, recordedTag row.1 = lastHalf row.2.2 ∧ (lastHalf row.2.2)[15] ≠ 0 := by
    intro row hrow
    obtain ⟨hkey, htag, -, hlast⟩ := recordedRows_apart.1 row hrow
    rw [recordedTag, recordedKey, hkey]
    exact ⟨htag, hlast⟩
  have hinjective : Function.Injective recordedTag :=
    injective_of_recorded hrows recordedRows_apart.2.2 fun _ => recordedTag_of_ne
  intro time later offset other h
  exact congrArg recordedKey (hinjective h)

/-- Under the recorded digests the tag of the next offset is reported as such at
the time it was made for, and as none a slot later. -/
theorem slots_identified_recorded :
    verify recorded 0 [0x60] (tag recorded 0 .next [0x60]) = some .next ∧
      verify recorded timeC1 [0x60] (tag recorded 0 .next [0x60]) = none :=
  ⟨(slots_identified.2 recorded [0x60] separatesSlots_recorded separatesKeys_recorded 0 0 .next).trans (if_pos rfl),
    (slots_identified.2 recorded [0x60] separatesSlots_recorded separatesKeys_recorded 0 timeC1 .next).trans
      (if_neg (by decide))⟩

end Kmsrs.Crypto.V6
