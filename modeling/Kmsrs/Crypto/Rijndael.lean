import Kmsrs.Crypto.Field

/-! The block permutation: the substitution box and its table inverse, the key
expansion for four and five key words with the three-byte version 6 tweak, and
both directions of the cipher. Every schedule is inverted, whatever its round
keys, so the tweak needs no separate argument. -/

namespace Kmsrs.Crypto

open ByteXor

/-- One 16-byte state, column-major: byte `4 c + r` is row `r` of column `c`. -/
abbrev Block := Vector UInt8 16

def stateWords : ℕ := 4
def maxRounds : ℕ := 11
def minKeyWords : ℕ := 4
def maxKeyWords : ℕ := 5

/-- Indexed from 1; the first and last entries are never read. -/
def roundConstants : Vector UInt32 12 :=
  #v[0x00000000, 0x01000000, 0x02000000, 0x04000000, 0x08000000, 0x10000000,
    0x20000000, 0x40000000, 0x80000000, 0x1B000000, 0x36000000, 0x00000000]

/-! ### Substitution box -/

abbrev Table := Vector UInt8 256

/-- `table[byte as usize]`. -/
def lookup (table : Table) (byte : UInt8) : UInt8 :=
  have h : byte.toNat < 256 := byte.toNat_lt
  table[byte.toNat]

def rotateLeft (byte : UInt8) (n : UInt8) : UInt8 := (byte <<< n) ||| (byte >>> (8 - n))

/-- The affine map that follows the field inverse. -/
def affine (inverse : UInt8) : UInt8 :=
  inverse ^^^ rotateLeft inverse 1 ^^^ rotateLeft inverse 2 ^^^ rotateLeft inverse 3 ^^^
    rotateLeft inverse 4 ^^^ 0x63

def buildSbox : Table := Vector.ofFn fun index : Fin 256 => affine (gfInverse (UInt8.ofNat index))

/-- `table[byte as usize] = value`. -/
def assign (table : Table) (byte value : UInt8) : Table := table.set byte.toNat value byte.toNat_lt

def invertPermutation (forward : Table) : Table :=
  (List.finRange 256).foldl (fun table (index : Fin 256) => assign table forward[index] (UInt8.ofNat index))
    (Vector.replicate 256 0)

def sbox : Table := buildSbox

def inverseSbox : Table := invertPermutation sbox

theorem affine_injective {a b : UInt8} (h : affine a = affine b) : a = b := by
  -- the affine map has an explicit inverse, checked byte by byte
  have hleft : ∀ x, rotateLeft (affine x) 1 ^^^ rotateLeft (affine x) 3 ^^^
      rotateLeft (affine x) 6 ^^^ 0x05 = x := forall_of_fin (by decide +kernel)
  rw [← hleft a, ← hleft b, h]

theorem lookup_sbox (byte : UInt8) : lookup sbox byte = affine (gfInverse byte) := by
  simp [lookup, sbox, buildSbox]

theorem lookup_sbox_injective {a b : UInt8} (h : lookup sbox a = lookup sbox b) : a = b := by
  rw [lookup_sbox, lookup_sbox] at h
  exact gfInverse_injective (affine_injective h)

theorem lookup_assign (table : Table) (byte value other : UInt8) :
    lookup (assign table byte value) other = if byte = other then value else lookup table other := by
  simp only [lookup, assign, Vector.getElem_set, UInt8.toNat_inj]

theorem getElem_eq_lookup (table : Table) (i : Fin 256) : table[i] = lookup table (UInt8.ofNat i) := by
  have hi : (UInt8.ofNat i).toNat = i := Nat.mod_eq_of_lt i.isLt
  simp only [lookup, hi, Fin.getElem_fin]

section InvertPermutation

variable {forward : Table} (hinj : ∀ {a b}, lookup forward a = lookup forward b → a = b)

include hinj

/-- Filling in further entries keeps the ones already right. -/
theorem lookup_foldl_assign (indices : List (Fin 256)) (table : Table) (i : Fin 256)
    (h : i ∈ indices ∨ lookup table forward[i] = UInt8.ofNat i) :
    lookup (indices.foldl (fun table (index : Fin 256) => assign table forward[index] (UInt8.ofNat index)) table)
      forward[i] = UInt8.ofNat i := by
  induction indices generalizing table with
  | nil => simpa using h
  | cons index indices ih =>
    apply ih
    rw [lookup_assign]
    by_cases hi : forward[index] = forward[i]
    · right
      rw [getElem_eq_lookup, getElem_eq_lookup] at hi
      rw [if_pos (by rw [getElem_eq_lookup, getElem_eq_lookup, hi]), hinj hi]
    · rw [if_neg hi]
      refine h.imp_left fun hmem => (List.mem_cons.mp hmem).resolve_left ?_
      rintro rfl
      exact hi rfl

theorem lookup_invertPermutation (byte : UInt8) :
    lookup (invertPermutation forward) (lookup forward byte) = byte := by
  have h := lookup_foldl_assign hinj (List.finRange 256) (Vector.replicate 256 0)
    ⟨byte.toNat, byte.toNat_lt⟩ (Or.inl (List.mem_finRange _))
  rwa [getElem_eq_lookup, UInt8.ofNat_toNat] at h

/-- An injective table of bytes meets every byte, so its inverse works on both
sides. -/
theorem lookup_lookup_invertPermutation (byte : UInt8) :
    lookup forward (lookup (invertPermutation forward) byte) = byte := by
  have : Finite UInt8 := Finite.of_injective UInt8.toFin fun _ _ => UInt8.toFin_inj.mp
  have hsurj : Function.Surjective (lookup forward) :=
    Finite.injective_iff_surjective.mp fun _ _ => hinj
  obtain ⟨source, rfl⟩ := hsurj byte
  rw [lookup_invertPermutation hinj]

end InvertPermutation

theorem lookup_inverseSbox (byte : UInt8) : lookup inverseSbox (lookup sbox byte) = byte := by
  rw [inverseSbox]
  exact lookup_invertPermutation lookup_sbox_injective byte

theorem lookup_sbox_inverseSbox (byte : UInt8) : lookup sbox (lookup inverseSbox byte) = byte := by
  rw [inverseSbox]
  exact lookup_lookup_invertPermutation lookup_sbox_injective byte

/-! ### Key schedule -/

/-- Byte `k` of `word.to_be_bytes()`. -/
def beByte (word : UInt32) (k : ℕ) : UInt8 := (word >>> UInt32.ofNat (24 - 8 * k)).toUInt8

def fromBeBytes (b0 b1 b2 b3 : UInt8) : UInt32 :=
  (b0.toUInt32 <<< 24) ||| (b1.toUInt32 <<< 16) ||| (b2.toUInt32 <<< 8) ||| b3.toUInt32

def subWord (word : UInt32) : UInt32 :=
  fromBeBytes (lookup sbox (beByte word 0)) (lookup sbox (beByte word 1))
    (lookup sbox (beByte word 2)) (lookup sbox (beByte word 3))

def rotateWordLeft (word : UInt32) : UInt32 := (word <<< 8) ||| (word >>> 24)

/-- One 16-byte round key per round after the whitening key. -/
structure KeySchedule where
  roundKeys : Vector Block 12
  rounds : ℕ
deriving DecidableEq

namespace KeySchedule

/-- The first `Nk` words are the key itself, read four bytes at a time. -/
def keyWordsOf (key : List UInt8) : Vector UInt32 48 :=
  Vector.ofFn fun slot : Fin 48 =>
    if 4 * slot.val + 4 ≤ key.length then
      fromBeBytes (key.getD (4 * slot) 0) (key.getD (4 * slot + 1) 0) (key.getD (4 * slot + 2) 0)
        (key.getD (4 * slot + 3) 0)
    else 0

/-- The body of the expansion loop at `index`. -/
def expandWord (keyWords : ℕ) (words : Vector UInt32 48) (index : ℕ) : Vector UInt32 48 :=
  let temp := words[index - 1]?.getD 0
  let temp := if index % keyWords = 0 then
      subWord (rotateWordLeft temp) ^^^ roundConstants[index / keyWords]?.getD 0
    else temp
  words.setIfInBounds index (words[index - keyWords]?.getD 0 ^^^ temp)

def expand (key : List UInt8) (keyWords : ℕ) : KeySchedule :=
  let keyWords := min (max keyWords minKeyWords) maxKeyWords
  let rounds := keyWords + 6
  let totalWords := min (stateWords * (rounds + 1)) 48
  let words := (List.range' keyWords (totalWords - keyWords)).foldl (expandWord keyWords) (keyWordsOf key)
  { rounds
    roundKeys := Vector.ofFn fun round : Fin 12 =>
      if round.val ≤ rounds then
        Vector.ofFn fun index : Fin 16 =>
          beByte (words[round.val * stateWords + index.val / 4]?.getD 0) (index.val % 4)
      else Vector.replicate 16 0 }

def aes128 (key : Vector UInt8 16) : KeySchedule := expand key.toList 4

/-- Twenty key bytes: `Nk = 5` and eleven rounds. -/
def rijndael160 (key : Vector UInt8 20) : KeySchedule := expand key.toList 5

/-- `round_keys[round][0] ^= delta`. -/
def tweak (schedule : KeySchedule) (round : Fin 12) (delta : UInt8) : KeySchedule :=
  { schedule with
    roundKeys := schedule.roundKeys.set round
      (schedule.roundKeys[round].set 0 (schedule.roundKeys[round][0] ^^^ delta)) }

/-- The standard expansion, then three bytes of the expanded key. -/
def aes128TweakedForV6 (key : Vector UInt8 16) : KeySchedule :=
  (((expand key.toList 4).tweak 4 0x73).tweak 6 0x09).tweak 8 0xE4

end KeySchedule

/-! ### The state transformations -/

def addRoundKey (state roundKey : Block) : Block := Vector.zipWith (· ^^^ ·) state roundKey

def substitute (state : Block) (table : Table) : Block := state.map (lookup table)

def shiftRows (source : Block) : Block :=
  Vector.ofFn fun index : Fin 16 =>
    let row := index.val &&& 3
    let column := index.val >>> 2
    source[(((column + row) &&& 3) <<< 2) ||| row]?.getD 0

def inverseShiftRows (source : Block) : Block :=
  Vector.ofFn fun index : Fin 16 =>
    let row := index.val &&& 3
    let column := index.val >>> 2
    source[(((column + 4 - row) &&& 3) <<< 2) ||| row]?.getD 0

/-- One column of the state. -/
abbrev Column := Vector UInt8 4

def columnAt (state : Block) (c : Fin 4) : Column :=
  Vector.ofFn fun row : Fin 4 => state[4 * c.val + row.val]

/-- `for column in state.chunks_exact_mut(4)`. -/
def overColumns (f : Column → Column) (state : Block) : Block :=
  Vector.ofFn fun index : Fin 16 =>
    have hcolumn : index.val / 4 < 4 := by omega
    have hrow : index.val % 4 < 4 := by omega
    (f (columnAt state ⟨index.val / 4, hcolumn⟩))[index.val % 4]

def mixColumn (a : Column) : Column :=
  #v[xtime a[0] ^^^ (xtime a[1] ^^^ a[1]) ^^^ a[2] ^^^ a[3],
    a[0] ^^^ xtime a[1] ^^^ (xtime a[2] ^^^ a[2]) ^^^ a[3],
    a[0] ^^^ a[1] ^^^ xtime a[2] ^^^ (xtime a[3] ^^^ a[3]),
    (xtime a[0] ^^^ a[0]) ^^^ a[1] ^^^ a[2] ^^^ xtime a[3]]

def mixColumns (state : Block) : Block := overColumns mixColumn state

def inverseMixColumn (a : Column) : Column :=
  #v[gfMul a[0] 0x0E ^^^ gfMul a[1] 0x0B ^^^ gfMul a[2] 0x0D ^^^ gfMul a[3] 0x09,
    gfMul a[0] 0x09 ^^^ gfMul a[1] 0x0E ^^^ gfMul a[2] 0x0B ^^^ gfMul a[3] 0x0D,
    gfMul a[0] 0x0D ^^^ gfMul a[1] 0x09 ^^^ gfMul a[2] 0x0E ^^^ gfMul a[3] 0x0B,
    gfMul a[0] 0x0B ^^^ gfMul a[1] 0x0D ^^^ gfMul a[2] 0x09 ^^^ gfMul a[3] 0x0E]

def inverseMixColumns (state : Block) : Block := overColumns inverseMixColumn state

theorem addRoundKey_addRoundKey (state roundKey : Block) :
    addRoundKey (addRoundKey state roundKey) roundKey = state := by
  apply Vector.ext
  intro i hi
  simp [addRoundKey]

theorem substitute_substitute {table inverse : Table}
    (h : ∀ byte, lookup inverse (lookup table byte) = byte) (state : Block) :
    substitute (substitute state table) inverse = state := by
  apply Vector.ext
  intro i hi
  simp only [substitute, Vector.getElem_map, h]

theorem inverseShiftRows_shiftRows (state : Block) : inverseShiftRows (shiftRows state) = state := by
  apply Vector.ext
  intro i hi
  interval_cases i <;> simp [shiftRows, inverseShiftRows]

theorem shiftRows_inverseShiftRows (state : Block) : shiftRows (inverseShiftRows state) = state := by
  apply Vector.ext
  intro i hi
  interval_cases i <;> simp [shiftRows, inverseShiftRows]

theorem columnAt_overColumns (f : Column → Column) (state : Block) (c : Fin 4) :
    columnAt (overColumns f state) c = f (columnAt state c) := by
  apply Vector.ext
  intro row hrow
  have hdiv : (4 * c.val + row) / 4 = c := by omega
  have hmod : row % 4 = row := Nat.mod_eq_of_lt hrow
  simp [columnAt, overColumns, hdiv, hmod]

theorem overColumns_overColumns {f g : Column → Column} (h : ∀ a, g (f a) = a) (state : Block) :
    overColumns g (overColumns f state) = state := by
  apply Vector.ext
  intro i hi
  have hi' : 4 * (i / 4) + i % 4 = i := by omega
  rw [overColumns]
  simp only [Vector.getElem_ofFn, columnAt_overColumns, h]
  simp [columnAt, hi']

/-- Both mixing matrices are circulant: entry `(i, k)` depends on `k - i`. -/
def mixGrid : Grid := fun i k =>
  match k - i with
  | 0 => xtime
  | 1 => fun x => xtime x ^^^ x
  | 2 => fun x => x
  | 3 => fun x => x

def inverseMixGrid : Grid := fun i k =>
  match k - i with
  | 0 => (gfMul · 0x0E)
  | 1 => (gfMul · 0x0B)
  | 2 => (gfMul · 0x0D)
  | 3 => (gfMul · 0x09)

theorem mixGrid_isAdditive : mixGrid.IsAdditive := by
  intro i k
  simp only [mixGrid]
  split
  · exact xtime_additive
  · exact xtime_additive.xor Additive.id
  · exact Additive.id
  · exact Additive.id

theorem inverseMixGrid_isAdditive : inverseMixGrid.IsAdditive := by
  intro i k
  simp only [inverseMixGrid]
  split <;> exact gfMul_additive_left _

theorem getElem_mixColumn (a : Column) (i : Fin 4) : (mixColumn a)[i] = mixGrid.apply (fun k => a[k]) i := by
  fin_cases i <;> rfl

theorem getElem_inverseMixColumn (a : Column) (i : Fin 4) :
    (inverseMixColumn a)[i] = inverseMixGrid.apply (fun k => a[k]) i := by
  fin_cases i <;> rfl

theorem inverseMixColumn_mixColumn (a : Column) : inverseMixColumn (mixColumn a) = a := by
  apply Vector.ext
  intro i hi
  have hgrid := Grid.apply_eq_self (inverseMixGrid_isAdditive.mul mixGrid_isAdditive)
    (by decide +kernel) (fun k => a[k]) ⟨i, hi⟩
  rw [← Grid.apply_apply inverseMixGrid_isAdditive] at hgrid
  calc (inverseMixColumn (mixColumn a))[i]
      = inverseMixGrid.apply (fun k => (mixColumn a)[k]) ⟨i, hi⟩ := getElem_inverseMixColumn _ ⟨i, hi⟩
    _ = inverseMixGrid.apply (mixGrid.apply fun k => a[k]) ⟨i, hi⟩ := by simp only [getElem_mixColumn]
    _ = a[i] := hgrid

theorem mixColumn_inverseMixColumn (a : Column) : mixColumn (inverseMixColumn a) = a := by
  apply Vector.ext
  intro i hi
  have hgrid := Grid.apply_eq_self (mixGrid_isAdditive.mul inverseMixGrid_isAdditive)
    (by decide +kernel) (fun k => a[k]) ⟨i, hi⟩
  rw [← Grid.apply_apply mixGrid_isAdditive] at hgrid
  calc (mixColumn (inverseMixColumn a))[i]
      = mixGrid.apply (fun k => (inverseMixColumn a)[k]) ⟨i, hi⟩ := getElem_mixColumn _ ⟨i, hi⟩
    _ = mixGrid.apply (inverseMixGrid.apply fun k => a[k]) ⟨i, hi⟩ := by
      simp only [getElem_inverseMixColumn]
    _ = a[i] := hgrid

/-! ### The cipher and its inverse -/

namespace KeySchedule

/-- `round_keys[round]`; every round used is at most `maxRounds`. -/
def roundKey (schedule : KeySchedule) (round : ℕ) : Block :=
  schedule.roundKeys[round]?.getD (Vector.replicate 16 0)

def encryptRound (schedule : KeySchedule) (block : Block) (round : ℕ) : Block :=
  addRoundKey (mixColumns (shiftRows (substitute block sbox))) (schedule.roundKey round)

def encryptBlock (schedule : KeySchedule) (block : Block) : Block :=
  let rounds := min schedule.rounds maxRounds
  let block := addRoundKey block (schedule.roundKey 0)
  let block := (List.range' 1 (rounds - 1)).foldl schedule.encryptRound block
  addRoundKey (shiftRows (substitute block sbox)) (schedule.roundKey rounds)

def decryptRound (schedule : KeySchedule) (block : Block) (round : ℕ) : Block :=
  inverseMixColumns
    (addRoundKey (substitute (inverseShiftRows block) inverseSbox) (schedule.roundKey round))

def decryptBlock (schedule : KeySchedule) (block : Block) : Block :=
  let rounds := min schedule.rounds maxRounds
  let block := addRoundKey block (schedule.roundKey rounds)
  let block := (List.range' 1 (rounds - 1)).reverse.foldl schedule.decryptRound block
  addRoundKey (substitute (inverseShiftRows block) inverseSbox) (schedule.roundKey 0)

/-- The cut at which the two directions meet: the keyless half of a round. -/
def halfRound (block : Block) : Block := shiftRows (substitute block sbox)

def inverseHalfRound (block : Block) : Block := substitute (inverseShiftRows block) inverseSbox

theorem inverseHalfRound_halfRound (block : Block) : inverseHalfRound (halfRound block) = block := by
  rw [inverseHalfRound, halfRound, inverseShiftRows_shiftRows, substitute_substitute lookup_inverseSbox]

theorem halfRound_inverseHalfRound (block : Block) : halfRound (inverseHalfRound block) = block := by
  rw [inverseHalfRound, halfRound, substitute_substitute lookup_sbox_inverseSbox,
    shiftRows_inverseShiftRows]

/-- One decryption round undoes one encryption round across the cut. -/
theorem decryptRound_encryptRound (schedule : KeySchedule) (block : Block) (round : ℕ) :
    schedule.decryptRound (halfRound (schedule.encryptRound block round)) round = halfRound block := by
  show inverseMixColumns (addRoundKey (inverseHalfRound (halfRound (schedule.encryptRound block round)))
    (schedule.roundKey round)) = halfRound block
  rw [inverseHalfRound_halfRound, encryptRound, addRoundKey_addRoundKey, inverseMixColumns, mixColumns,
    overColumns_overColumns inverseMixColumn_mixColumn, halfRound]

theorem encryptRound_decryptRound (schedule : KeySchedule) (block : Block) (round : ℕ) :
    schedule.encryptRound (inverseHalfRound (schedule.decryptRound block round)) round =
      inverseHalfRound block := by
  show addRoundKey (mixColumns (halfRound (inverseHalfRound (schedule.decryptRound block round))))
    (schedule.roundKey round) = inverseHalfRound block
  rw [halfRound_inverseHalfRound, decryptRound, inverseMixColumns, mixColumns,
    overColumns_overColumns mixColumn_inverseMixColumn, addRoundKey_addRoundKey, inverseHalfRound]

theorem foldl_decryptRound (schedule : KeySchedule) (rounds : List ℕ) (block : Block) :
    rounds.reverse.foldl schedule.decryptRound (halfRound (rounds.foldl schedule.encryptRound block)) =
      halfRound block := by
  induction rounds generalizing block with
  | nil => rfl
  | cons round rounds ih =>
    rw [List.foldl_cons, List.reverse_cons, List.foldl_append, ih]
    exact decryptRound_encryptRound schedule block round

theorem foldl_encryptRound (schedule : KeySchedule) (rounds : List ℕ) (block : Block) :
    rounds.foldl schedule.encryptRound (inverseHalfRound (rounds.reverse.foldl schedule.decryptRound block)) =
      inverseHalfRound block := by
  induction rounds generalizing block with
  | nil => rfl
  | cons round rounds ih =>
    rw [List.reverse_cons, List.foldl_append, List.foldl_cons, List.foldl_cons, List.foldl_nil,
      encryptRound_decryptRound, ih]

theorem decryptBlock_encryptBlock (schedule : KeySchedule) (block : Block) :
    schedule.decryptBlock (schedule.encryptBlock block) = block := by
  simp only [decryptBlock, encryptBlock, addRoundKey_addRoundKey]
  rw [← halfRound, foldl_decryptRound, ← inverseHalfRound, inverseHalfRound_halfRound,
    addRoundKey_addRoundKey]

theorem encryptBlock_decryptBlock (schedule : KeySchedule) (block : Block) :
    schedule.encryptBlock (schedule.decryptBlock block) = block := by
  simp only [decryptBlock, encryptBlock, addRoundKey_addRoundKey]
  rw [← inverseHalfRound, foldl_encryptRound, ← halfRound, halfRound_inverseHalfRound,
    addRoundKey_addRoundKey]

/-- The two directions of a schedule undo each other. -/
def Inverts (schedule : KeySchedule) : Prop :=
  ∀ block, schedule.decryptBlock (schedule.encryptBlock block) = block ∧
    schedule.encryptBlock (schedule.decryptBlock block) = block

/-- Every key that is expanded, and every table of round keys at any number of rounds. -/
theorem expanded_inverts : (∀ key, (aes128 key).Inverts) ∧ (∀ key, (aes128TweakedForV6 key).Inverts) ∧
    (∀ key, (rijndael160 key).Inverts) ∧ ∀ roundKeys rounds, Inverts ⟨roundKeys, rounds⟩ := by
  have hall (schedule : KeySchedule) : schedule.Inverts := fun block =>
    ⟨schedule.decryptBlock_encryptBlock block, schedule.encryptBlock_decryptBlock block⟩
  exact ⟨fun key => hall _, fun key => hall _, fun key => hall _, fun roundKeys rounds => hall _⟩

end KeySchedule

end Kmsrs.Crypto
