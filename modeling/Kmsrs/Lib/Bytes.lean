import Kmsrs.Lib.Rows

/-! Byte strings as lists of octets: little-endian numbers of a fixed width,
checked ranges, and overwriting part of a buffer. A range or a write that does
not fit is `none`, never a shorter result. -/

namespace Kmsrs.Bytes

/-! ### Little-endian numbers -/

/-- The `width` low-order octets of `n`, least significant first. -/
def ofNatLE : ℕ → ℕ → List UInt8
  | 0, _ => []
  | width + 1, n => UInt8.ofNat n :: ofNatLE width (n / 256)

/-- The number a byte string spells, least significant octet first. -/
def toNatLE : List UInt8 → ℕ
  | [] => 0
  | b :: bs => b.toNat + 256 * toNatLE bs

@[simp] theorem length_ofNatLE (width n : ℕ) : (ofNatLE width n).length = width := by
  induction width generalizing n with
  | zero => rfl
  | succ width ih => simp [ofNatLE, ih]

theorem toNatLE_lt (bs : List UInt8) : toNatLE bs < 256 ^ bs.length := by
  induction bs with
  | nil => simp [toNatLE]
  | cons b bs ih =>
    have hb := b.toNat_lt
    simp only [toNatLE, List.length_cons, pow_succ]
    omega

theorem toNatLE_ofNatLE (width n : ℕ) : toNatLE (ofNatLE width n) = n % 256 ^ width := by
  induction width generalizing n with
  | zero => simp [ofNatLE, toNatLE, Nat.mod_one]
  | succ width ih =>
    have hpow : 256 ^ (width + 1) = 256 * 256 ^ width := pow_succ' 256 width
    rw [hpow, Nat.mod_mul, ofNatLE, toNatLE, ih, UInt8.toNat_ofNat']

theorem ofNatLE_toNatLE (bs : List UInt8) : ofNatLE bs.length (toNatLE bs) = bs := by
  induction bs with
  | nil => rfl
  | cons b bs ih =>
    have hb := b.toNat_lt
    have hhead : UInt8.ofNat (b.toNat + 256 * toNatLE bs) = b := by
      apply UInt8.toNat_inj.mp
      rw [UInt8.toNat_ofNat']
      omega
    have htail : (b.toNat + 256 * toNatLE bs) / 256 = toNatLE bs := by omega
    simp only [List.length_cons, toNatLE, ofNatLE, hhead, htail, ih]

theorem toNatLE_append (bs cs : List UInt8) :
    toNatLE (bs ++ cs) = toNatLE bs + 256 ^ bs.length * toNatLE cs := by
  induction bs with
  | nil => simp [toNatLE]
  | cons b bs ih =>
    rw [List.cons_append, toNatLE, toNatLE, ih, List.length_cons, pow_succ]
    ring

/-! ### Leading bits -/

/-- Two numbers `width` bits wide agree on their first `count` bits. -/
def LeadingBits (width count m n : ℕ) : Prop :=
  ∀ i < count, m.testBit (width - 1 - i) = n.testBit (width - 1 - i)

theorem leadingBits_iff {width count m n : ℕ} (hm : m < 2 ^ width) (hn : n < 2 ^ width) (hcount : count ≤ width) :
    LeadingBits width count m n ↔ m >>> (width - count) = n >>> (width - count) := by
  constructor
  · intro h
    apply Nat.eq_of_testBit_eq
    intro i
    rw [Nat.testBit_shiftRight, Nat.testBit_shiftRight]
    by_cases hi : i < count
    · have hbit := h (count - 1 - i) (by omega)
      rwa [show width - 1 - (count - 1 - i) = width - count + i by omega] at hbit
    · have hhigh : 2 ^ width ≤ 2 ^ (width - count + i) := Nat.pow_le_pow_right two_pos (by omega)
      rw [Nat.testBit_lt_two_pow (hm.trans_le hhigh), Nat.testBit_lt_two_pow (hn.trans_le hhigh)]
  · intro h i hi
    have hbit := congrArg (fun k => k.testBit (count - 1 - i)) h
    simp only [Nat.testBit_shiftRight] at hbit
    rwa [show width - count + (count - 1 - i) = width - 1 - i by omega] at hbit

/-! ### Lengths as machine integers -/

def usizeMax : ℕ := 2 ^ 64 - 1

/-- `u16::try_from`. -/
def u16TryFrom (n : ℕ) : Option UInt16 := if n < 2 ^ 16 then some (UInt16.ofNat n) else none

/-- `u32::try_from`. -/
def u32TryFrom (n : ℕ) : Option UInt32 := if n < 2 ^ 32 then some (UInt32.ofNat n) else none

theorem u16TryFrom_eq_some {n : ℕ} (h : n < 2 ^ 16) : u16TryFrom n = some (UInt16.ofNat n) := if_pos h

/-- `n.wrapping_neg() & 3`: what is missing to a multiple of four. -/
def alignPadding (n : ℕ) : ℕ := (4 - n % 4) % 4

/-! ### Ranges -/

/-- `bytes.get(start..stop)`: present only when the whole range is. -/
def range (bytes : List UInt8) (start stop : ℕ) : Option (List UInt8) :=
  if start ≤ stop ∧ stop ≤ bytes.length then some ((bytes.drop start).take (stop - start)) else none

theorem range_eq_some {bytes : List UInt8} {start stop : ℕ} (h : start ≤ stop)
    (hs : stop ≤ bytes.length) : range bytes start stop = some ((bytes.drop start).take (stop - start)) :=
  if_pos ⟨h, hs⟩

theorem range_eq_none {bytes : List UInt8} {start stop : ℕ} (h : bytes.length < stop) :
    range bytes start stop = none :=
  if_neg fun hs => by omega

/-- The middle of a three-part string, by its offsets. -/
theorem range_append (p m s : List UInt8) {start stop : ℕ} (hstart : start = p.length)
    (hstop : stop = p.length + m.length) : range (p ++ m ++ s) start stop = some m := by
  subst hstart hstop
  rw [range_eq_some (by omega) (by simp)]
  simp

theorem range_prefix (m s : List UInt8) {stop : ℕ} (h : stop = m.length) :
    range (m ++ s) 0 stop = some m :=
  range_append [] m s rfl (by simpa using h)

/-- `bytes.get(start..)`. -/
theorem range_suffix (p m : List UInt8) {start : ℕ} (h : start = p.length) :
    range (p ++ m) start (p ++ m).length = some m := by
  have hmiddle := range_append p m [] h rfl
  rwa [List.append_nil, ← List.length_append] at hmiddle

/-- A range within the front does not see what follows. -/
theorem range_append_left {p : List UInt8} {start stop : ℕ} (h : stop ≤ p.length) (s : List UInt8) :
    range (p ++ s) start stop = range p start stop := by
  unfold range
  by_cases hstart : start ≤ stop
  · rw [if_pos ⟨hstart, by rw [List.length_append]; omega⟩, if_pos ⟨hstart, h⟩,
      List.drop_append_of_le_length (by omega), List.take_append_of_le_length (by rw [List.length_drop]; omega)]
  · rw [if_neg (by omega), if_neg (by omega)]

theorem length_of_range {bytes m : List UInt8} {start stop : ℕ}
    (h : range bytes start stop = some m) : m.length = stop - start := by
  unfold range at h
  split at h
  next hs =>
    cases h
    simp only [List.length_take, List.length_drop]
    omega
  next => cases h

/-- What is in a range and what follows it make up the rest of the string. -/
theorem drop_eq_of_range {bytes m : List UInt8} {start stop : ℕ} (h : range bytes start stop = some m) :
    bytes.drop start = m ++ bytes.drop stop := by
  unfold range at h
  split at h
  next hs =>
    cases h
    have hafter : (bytes.drop start).drop (stop - start) = bytes.drop stop := by
      rw [List.drop_drop, Nat.add_sub_cancel' hs.1]
    rw [← hafter, List.take_append_drop]
  next => cases h

theorem eq_append_of_range {bytes m : List UInt8} {stop : ℕ} (h : range bytes 0 stop = some m) :
    bytes = m ++ bytes.drop stop ∧ m.length = stop :=
  ⟨drop_eq_of_range h, length_of_range h⟩

theorem exists_range_prefix {bytes : List UInt8} {stop : ℕ} (h : stop ≤ bytes.length) :
    ∃ m, range bytes 0 stop = some m ∧ m.length = stop :=
  ⟨_, range_eq_some (Nat.zero_le stop) h, length_of_range (range_eq_some (Nat.zero_le stop) h)⟩

/-! ### Writing into a buffer -/

/-- `buf.get_mut(at..at + src.len())?.copy_from_slice(src)`: the buffer with
`src` written at `offset`, its length unchanged. -/
def put (buf : List UInt8) (offset : ℕ) (src : List UInt8) : Option (List UInt8) :=
  if offset + src.length ≤ buf.length then
    some (buf.take offset ++ src ++ buf.drop (offset + src.length))
  else none

theorem put_eq_none {buf src : List UInt8} {offset : ℕ} (h : buf.length < offset + src.length) :
    put buf offset src = none := if_neg (by omega)

/-- Writing right after a written prefix extends the prefix. -/
theorem put_append (p q src : List UInt8) {offset : ℕ} (ho : offset = p.length)
    (h : src.length ≤ q.length) :
    put (p ++ q) offset src = some (p ++ src ++ q.drop src.length) := by
  subst ho
  unfold put
  rw [if_pos (by simp; omega)]
  simp [List.drop_append]

theorem put_zero (q src : List UInt8) (h : src.length ≤ q.length) :
    put q 0 src = some (src ++ q.drop src.length) := by
  simpa using put_append [] q src rfl h

/-- Writing over the middle part of a buffer replaces just that part. -/
theorem put_middle (p m q src : List UInt8) {offset : ℕ} (ho : offset = p.length)
    (h : src.length = m.length) : put (p ++ m ++ q) offset src = some (p ++ src ++ q) := by
  rw [List.append_assoc, put_append p (m ++ q) src ho (by simp; omega), h, List.drop_left]

/-! ### Writing at a cursor -/

/-- A step that writes at a cursor and moves it, or does not fit. -/
abbrev Writer := List UInt8 → ℕ → Option (ℕ × List UInt8)

/-- Copy `src` at the cursor. -/
def putAt (src : List UInt8) : Writer := fun out cursor =>
  (put out cursor src).map fun out => (cursor + src.length, out)

/-- Given room, the writer appends `bytes` to what is written already and leaves
the rest of the buffer alone. -/
def Writes (w : Writer) (bytes : List UInt8) : Prop :=
  ∀ p q : List UInt8, bytes.length ≤ q.length →
    w (p ++ q) p.length = some ((p ++ bytes).length, (p ++ bytes) ++ q.drop bytes.length)

theorem writes_putAt (src : List UInt8) : Writes (putAt src) src := by
  intro p q h
  rw [putAt, put_append p q src rfl h, Option.map_some, List.length_append]

/-- A writer started on an empty prefix. -/
theorem Writes.start {w : Writer} {bytes : List UInt8} (h : Writes w bytes) (out : List UInt8)
    (hroom : bytes.length ≤ out.length) :
    w out 0 = some (bytes.length, bytes ++ out.drop bytes.length) := h [] out hroom

/-- Two writers, one after the other. -/
theorem Writes.seq {w₁ w₂ : Writer} {b₁ b₂ : List UInt8} (h₁ : Writes w₁ b₁) (h₂ : Writes w₂ b₂) :
    Writes (fun out cursor => (w₁ out cursor).bind fun r => w₂ r.2 r.1) (b₁ ++ b₂) := by
  intro p q h
  rw [List.length_append] at h
  have hroom : b₂.length ≤ (q.drop b₁.length).length := by
    rw [List.length_drop]
    omega
  show (w₁ (p ++ q) p.length).bind (fun r => w₂ r.2 r.1) = _
  rw [h₁ p q (by omega), Option.bind_some, h₂ (p ++ b₁) _ hroom, List.drop_drop, List.append_assoc p,
    ← List.length_append]

/-- Fields, one after the other. -/
def putAll : List (List UInt8) → Writer
  | [] => fun out cursor => some (cursor, out)
  | field :: fields => fun out cursor => (putAt field out cursor).bind fun r => putAll fields r.2 r.1

theorem writes_putAll (fields : List (List UInt8)) : Writes (putAll fields) fields.flatten := by
  induction fields with
  | nil =>
    intro p q _
    simp [putAll]
  | cons field fields ih => exact (writes_putAt field).seq ih

/-- `out.get_mut(..total)?` filled by a writer. -/
def writeRegion (out : List UInt8) (total : ℕ) (w : Writer) : Option (ℕ × List UInt8) :=
  (range out 0 total).bind fun region => (w region 0).map fun r => (total, r.2 ++ out.drop total)

theorem writeRegion_eq {w : Writer} {bytes : List UInt8} (h : Writes w bytes) (out : List UInt8) {total : ℕ}
    (htotal : bytes.length = total) : writeRegion out total w =
      if total ≤ out.length then some (total, bytes ++ out.drop total) else none := by
  unfold writeRegion
  by_cases hroom : total ≤ out.length
  · obtain ⟨region, hregion, hlen⟩ := exists_range_prefix hroom
    have hrest : region.drop bytes.length = [] := List.drop_eq_nil_of_le (by omega)
    rw [hregion, Option.bind_some, h.start region (by omega), hrest, if_pos hroom]
    simp
  · rw [range_eq_none (by omega), if_neg hroom, Option.bind_none]

end Kmsrs.Bytes
