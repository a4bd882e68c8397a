import Kmsrs.Lib.Bytes

/-! Fixed-size wire layouts. A layout carries the proofs that its encoding has
one length, that decoding inverts encoding, and that on strings of that length
encoding inverts decoding, so a record assembled from layouts is a bijection
with the byte strings of its size. -/

namespace Kmsrs

/-- A bijective encoding of `α` as the byte strings of length `size`. -/
structure Layout (α : Type) where
  size : ℕ
  encode : α → List UInt8
  decode : List UInt8 → α
  length_encode : ∀ a, (encode a).length = size
  decode_encode : ∀ a, decode (encode a) = a
  encode_decode : ∀ bytes, bytes.length = size → encode (decode bytes) = bytes

namespace Layout

open Bytes

variable {α β : Type}

attribute [simp] length_encode decode_encode

/-- Read a whole string: only the exact length will do. -/
def readFromBytes (L : Layout α) (bytes : List UInt8) : Option α :=
  if bytes.length = L.size then some (L.decode bytes) else none

/-- Read from the front of a string and return what follows. -/
def readFromPrefix (L : Layout α) (bytes : List UInt8) : Option (α × List UInt8) :=
  if L.size ≤ bytes.length then some (L.decode (bytes.take L.size), bytes.drop L.size) else none

@[simp] theorem readFromBytes_encode (L : Layout α) (a : α) :
    L.readFromBytes (L.encode a) = some a := by
  simp [readFromBytes]

@[simp] theorem readFromPrefix_append (L : Layout α) (a : α) (rest : List UInt8) :
    L.readFromPrefix (L.encode a ++ rest) = some (a, rest) := by
  have htake : (L.encode a ++ rest).take L.size = L.encode a := by
    rw [← L.length_encode a, List.take_left]
  have hdrop : (L.encode a ++ rest).drop L.size = rest := by
    rw [← L.length_encode a, List.drop_left]
  rw [readFromPrefix, if_pos (by simp), htake, hdrop, L.decode_encode]

theorem readFromPrefix_eq_some (L : Layout α) {bytes : List UInt8} (h : L.size ≤ bytes.length) :
    L.readFromPrefix bytes = some (L.decode (bytes.take L.size), bytes.drop L.size) := if_pos h

/-- What is read and what follows make up the string. -/
theorem eq_append_of_readFromPrefix (L : Layout α) {bytes rest : List UInt8} {a : α}
    (h : L.readFromPrefix bytes = some (a, rest)) : bytes = L.encode a ++ rest := by
  unfold readFromPrefix at h
  split at h
  next hlen =>
    cases h
    rw [L.encode_decode _ (by rw [List.length_take]; omega), List.take_append_drop]
  next => cases h

theorem readFromPrefix_eq_none (L : Layout α) {bytes : List UInt8} (h : bytes.length < L.size) :
    L.readFromPrefix bytes = none := if_neg (by omega)

/-- Read at an offset of a string. -/
def readAt (L : Layout α) (bytes : List UInt8) (offset : ℕ) : Option α :=
  (range bytes offset (offset + L.size)).map L.decode

theorem readAt_append (L : Layout α) (p : List UInt8) (a : α) (s : List UInt8) {offset : ℕ}
    (h : offset = p.length) : L.readAt (p ++ L.encode a ++ s) offset = some a := by
  rw [readAt, range_append p (L.encode a) s h (by rw [L.length_encode, h]), Option.map_some, L.decode_encode]

theorem readAt_append_left (L : Layout α) {p : List UInt8} {offset : ℕ} (h : offset + L.size ≤ p.length)
    (s : List UInt8) : L.readAt (p ++ s) offset = L.readAt p offset := by
  rw [readAt, readAt, range_append_left h]

/-! ### Numbers -/

def u8 : Layout UInt8 where
  size := 1
  encode b := [b]
  decode bytes := bytes.headD 0
  length_encode _ := rfl
  decode_encode _ := rfl
  encode_decode bytes h := by
    obtain ⟨b, rfl⟩ := List.length_eq_one_iff.mp h
    rfl

/-- A little-endian number type of `width` octets, from its bounded conversions. -/
def number (width : ℕ) (toNat : α → ℕ) (ofNat : ℕ → α) (hlt : ∀ a, toNat a < 256 ^ width)
    (hof : ∀ a, ofNat (toNat a) = a) (hto : ∀ n, n < 256 ^ width → toNat (ofNat n) = n) :
    Layout α where
  size := width
  encode a := ofNatLE width (toNat a)
  decode bytes := ofNat (toNatLE bytes)
  length_encode a := length_ofNatLE width (toNat a)
  decode_encode a := by rw [toNatLE_ofNatLE, Nat.mod_eq_of_lt (hlt a), hof]
  encode_decode bytes h := by
    subst h
    rw [hto _ (toNatLE_lt bytes), ofNatLE_toNatLE]

def u16 : Layout UInt16 :=
  number 2 UInt16.toNat UInt16.ofNat UInt16.toNat_lt (fun _ => UInt16.ofNat_toNat)
    (fun _ h => UInt16.toNat_ofNat_of_lt' h)

def u32 : Layout UInt32 :=
  number 4 UInt32.toNat UInt32.ofNat UInt32.toNat_lt (fun _ => UInt32.ofNat_toNat)
    (fun _ h => UInt32.toNat_ofNat_of_lt' h)

def u64 : Layout UInt64 :=
  number 8 UInt64.toNat UInt64.ofNat UInt64.toNat_lt (fun _ => UInt64.ofNat_toNat)
    (fun _ h => UInt64.toNat_ofNat_of_lt' h)

@[simp] theorem size_u8 : u8.size = 1 := rfl
@[simp] theorem size_u16 : u16.size = 2 := rfl
@[simp] theorem size_u32 : u32.size = 4 := rfl
@[simp] theorem size_u64 : u64.size = 8 := rfl

/-! ### Records and arrays -/

/-- Two fields, one after the other. -/
def pair (L : Layout α) (M : Layout β) : Layout (α × β) where
  size := L.size + M.size
  encode p := L.encode p.1 ++ M.encode p.2
  decode bytes := (L.decode (bytes.take L.size), M.decode (bytes.drop L.size))
  length_encode p := by simp
  decode_encode p := by
    have htake : (L.encode p.1 ++ M.encode p.2).take L.size = L.encode p.1 := by
      rw [← L.length_encode p.1, List.take_left]
    have hdrop : (L.encode p.1 ++ M.encode p.2).drop L.size = M.encode p.2 := by
      rw [← L.length_encode p.1, List.drop_left]
    simp [htake, hdrop]
  encode_decode bytes h := by
    rw [L.encode_decode _ (by simp; omega), M.encode_decode _ (by simp; omega), List.take_append_drop]

@[simp] theorem size_pair (L : Layout α) (M : Layout β) : (L.pair M).size = L.size + M.size := rfl

/-- The same bytes read as another type. -/
def iso (L : Layout α) (read : α → β) (back : β → α) (hback : ∀ a, back (read a) = a)
    (hread : ∀ b, read (back b) = b) : Layout β where
  size := L.size
  encode b := L.encode (back b)
  decode bytes := read (L.decode bytes)
  length_encode b := L.length_encode (back b)
  decode_encode b := by rw [L.decode_encode, hread]
  encode_decode bytes h := by rw [hback, L.encode_decode bytes h]

/-- A fixed-length byte array. -/
def bytes (n : ℕ) : Layout (Vector UInt8 n) where
  size := n
  encode v := v.toList
  decode bs := Vector.ofFn fun i => bs.getD i 0
  length_encode _ := Vector.length_toList
  decode_encode v := by
    ext i hi
    simp [List.getD_eq_getElem?_getD]
  encode_decode bs h := by
    rw [Vector.toList_ofFn]
    refine List.ext_getElem (by simp [h]) fun i h₁ h₂ => ?_
    simp [List.getD_eq_getElem?_getD, h₂]

@[simp] theorem size_bytes (n : ℕ) : (bytes n).size = n := rfl
@[simp] theorem encode_bytes (n : ℕ) (v : Vector UInt8 n) : (bytes n).encode v = v.toList := rfl

@[simp] theorem decode_bytes_toList {n : ℕ} (v : Vector UInt8 n) : (bytes n).decode v.toList = v :=
  (bytes n).decode_encode v

theorem toList_decode_bytes {n : ℕ} {bs : List UInt8} (h : bs.length = n) :
    ((bytes n).decode bs).toList = bs := (bytes n).encode_decode bs h

/-- Element `i` of a string of equal parts. -/
theorem slice_flatMap (L : Layout α) (as : List α) (i : ℕ) (hi : i < as.length) :
    ((as.flatMap L.encode).drop (i * L.size)).take L.size = L.encode as[i] := by
  induction as generalizing i with
  | nil => simp at hi
  | cons a as ih =>
    cases i with
    | zero => simp
    | succ i =>
      have hoff : (i + 1) * L.size = (L.encode a).length + i * L.size := by
        rw [L.length_encode]; ring
      rw [List.flatMap_cons, hoff, List.drop_length_add_append]
      exact ih i (by simpa using hi)

/-- Cutting a string into `n` equal parts and gluing them back. -/
theorem flatten_slices (size n : ℕ) (bs : List UInt8) (h : bs.length = n * size) :
    (List.ofFn fun i : Fin n => (bs.drop (i * size)).take size).flatten = bs := by
  induction n generalizing bs with
  | zero => simp_all
  | succ n ih =>
    have hlen : bs.length = size + n * size := by rw [h]; ring
    have htail := ih (bs.drop size) (by simp [hlen])
    have hparts : (fun i : Fin n => ((bs.drop size).drop (i * size)).take size) =
        fun i : Fin n => (bs.drop ((i + 1) * size)).take size := by
      funext i
      rw [List.drop_drop, Nat.add_comm, ← Nat.succ_mul]
    rw [hparts] at htail
    rw [List.ofFn_succ, List.flatten_cons]
    simpa using congrArg (bs.take size ++ ·) htail

/-- `n` elements of one layout, one after the other. -/
def array (n : ℕ) (L : Layout α) : Layout (Vector α n) where
  size := n * L.size
  encode v := v.toList.flatMap L.encode
  decode bs := Vector.ofFn fun i => L.decode ((bs.drop (i * L.size)).take L.size)
  length_encode v := by simp [List.length_flatMap]
  decode_encode v := by
    ext i hi
    have hslice := L.slice_flatMap v.toList i (by simpa using hi)
    simp [hslice]
  encode_decode bs h := by
    have hlen (i : Fin n) : ((bs.drop (i * L.size)).take L.size).length = L.size := by
      have : (i + 1) * L.size ≤ n * L.size := Nat.mul_le_mul_right _ i.isLt
      simp only [List.length_take, List.length_drop, h]
      have hexp : (i + 1 : ℕ) * L.size = i * L.size + L.size := by ring
      omega
    rw [Vector.toList_ofFn, List.flatMap_def, List.map_ofFn]
    have hparts : (L.encode ∘ fun i : Fin n => L.decode ((bs.drop (i * L.size)).take L.size)) =
        fun i : Fin n => (bs.drop (i * L.size)).take L.size := by
      funext i
      exact L.encode_decode _ (hlen i)
    rw [hparts, flatten_slices L.size n bs h]

@[simp] theorem size_array (n : ℕ) (L : Layout α) : (L.array n).size = n * L.size := rfl

/-! ### Whole chunks of a longer string -/

/-- `bytes.chunks_exact(size)`: the remainder is left out. -/
def chunksExact (L : Layout α) (bytes : List UInt8) : List α :=
  List.ofFn fun i : Fin (bytes.length / L.size) => L.decode ((bytes.drop (i * L.size)).take L.size)

/-- The part of the string that `chunksExact` leaves out. -/
def remainder (L : Layout α) (bytes : List UInt8) : List UInt8 :=
  bytes.drop (bytes.length / L.size * L.size)

@[simp] theorem length_chunksExact (L : Layout α) (bytes : List UInt8) :
    (L.chunksExact bytes).length = bytes.length / L.size := List.length_ofFn

@[simp] theorem length_flatMap_encode (L : Layout α) (as : List α) :
    (as.flatMap L.encode).length = as.length * L.size := by
  simp [List.length_flatMap]

/-- A tail shorter than one chunk is not seen. -/
theorem chunksExact_append (L : Layout α) (as : List α) {tail : List UInt8} (h : tail.length < L.size) :
    L.chunksExact (as.flatMap L.encode ++ tail) = as := by
  have hcount : (as.flatMap L.encode ++ tail).length / L.size = as.length := by
    rw [List.length_append, length_flatMap_encode, Nat.add_comm,
      Nat.add_mul_div_right _ _ (by omega), Nat.div_eq_of_lt h, Nat.zero_add]
  refine List.ext_getElem (by simpa using hcount) fun i h₁ h₂ => ?_
  have hend : i * L.size + L.size ≤ (as.flatMap L.encode).length := by
    rw [length_flatMap_encode, ← Nat.succ_mul]
    exact Nat.mul_le_mul_right _ h₂
  have hslice : ((as.flatMap L.encode ++ tail).drop (i * L.size)).take L.size = L.encode as[i] := by
    rw [List.drop_append_of_le_length (by omega), List.take_append_of_le_length (by rw [List.length_drop]; omega),
      L.slice_flatMap as i h₂]
  simp [chunksExact, hslice]

theorem chunksExact_flatMap (L : Layout α) (h : 0 < L.size) (as : List α) :
    L.chunksExact (as.flatMap L.encode) = as := by
  have htail : ([] : List UInt8).length < L.size := h
  simpa using L.chunksExact_append as htail

/-- Chunks and remainder make up the string. -/
theorem flatMap_chunksExact_append (L : Layout α) (bytes : List UInt8) :
    (L.chunksExact bytes).flatMap L.encode ++ L.remainder bytes = bytes := by
  have hle : bytes.length / L.size * L.size ≤ bytes.length := Nat.div_mul_le_self _ _
  have hparts : (L.chunksExact bytes).flatMap L.encode = bytes.take (bytes.length / L.size * L.size) := by
    have harray := (L.array (bytes.length / L.size)).encode_decode
      (bytes.take (bytes.length / L.size * L.size)) (by simpa using hle)
    rw [← harray]
    simp only [array, Vector.toList_ofFn, chunksExact]
    congr 2
    funext i
    have hi : i.val * L.size + L.size ≤ bytes.length / L.size * L.size := by
      rw [← Nat.succ_mul]
      exact Nat.mul_le_mul_right _ i.isLt
    rw [List.drop_take, List.take_take, Nat.min_eq_left (by omega)]
  rw [hparts, remainder, List.take_append_drop]

theorem flatMap_chunksExact (L : Layout α) {bytes : List UInt8} (h : L.remainder bytes = []) :
    (L.chunksExact bytes).flatMap L.encode = bytes := by
  have hall := L.flatMap_chunksExact_append bytes
  rwa [h, List.append_nil] at hall

theorem length_remainder (L : Layout α) (bytes : List UInt8) :
    (L.remainder bytes).length = bytes.length % L.size := by
  rw [remainder, List.length_drop, Nat.mod_eq_sub_div_mul]

/-- Chunking takes one element off the front at a time. -/
theorem chunksExact_cons (L : Layout α) (h : 0 < L.size) (a : α) (bytes : List UInt8) :
    L.chunksExact (L.encode a ++ bytes) = a :: L.chunksExact bytes := by
  have hrem : (L.remainder bytes).length < L.size := by
    rw [length_remainder]
    exact Nat.mod_lt _ h
  have happ := L.chunksExact_append (a :: L.chunksExact bytes) hrem
  rwa [List.flatMap_cons, List.append_assoc, flatMap_chunksExact_append] at happ

end Layout

end Kmsrs
