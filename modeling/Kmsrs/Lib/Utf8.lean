import Kmsrs.Lib.Text

/-! Text and its bytes. A byte below 0x80 among the bytes of a text is a character of its
own, so the bytes can be cut there just where the text can. -/

namespace Kmsrs.Text

/-- The bytes of an array from an index on, behind those already taken. -/
theorem toListLoop_eq (bytes : ByteArray) (i : ℕ) (r : List UInt8) :
    ByteArray.toList.loop bytes i r = r.reverse ++ bytes.data.toList.drop i := by
  fun_induction ByteArray.toList.loop bytes i r with
  | case1 i r h ih =>
    have hi : i < bytes.data.toList.length := h
    have hget : bytes.get! i = bytes.data.toList[i] := by
      show bytes.data[i]! = _
      rw [getElem!_pos bytes.data i h, Array.getElem_toList]
    rw [ih, hget, List.drop_eq_getElem_cons hi]
    simp
  | case2 i r h =>
    have hi : ¬ i < bytes.data.toList.length := h
    rw [List.drop_eq_nil_of_le (by omega), List.append_nil]

theorem toList_byteArray (bytes : ByteArray) : bytes.toList = bytes.data.toList := toListLoop_eq bytes 0 []

theorem toUtf8_eq (text : Text) : toUtf8 text = text.flatMap String.utf8EncodeChar := by
  rw [toUtf8, toList_byteArray, String.toUTF8_eq_toByteArray, String.toByteArray_ofList, List.utf8Encode, List.data_toByteArray]

theorem toUtf8_append (front back : Text) : toUtf8 (front ++ back) = toUtf8 front ++ toUtf8 back := by
  rw [toUtf8_eq, toUtf8_eq, toUtf8_eq, List.flatMap_append]

theorem toUtf8_cons (c : Char) (text : Text) : toUtf8 (c :: text) = String.utf8EncodeChar c ++ toUtf8 text := by
  rw [toUtf8_eq, toUtf8_eq, List.flatMap_cons]

/-- Reading is the inverse of writing. -/
theorem fromUtf8_eq_some_iff {bytes : List UInt8} {text : Text} : fromUtf8 bytes = some text ↔ bytes = toUtf8 text := by
  have hbytes : (⟨bytes.toArray⟩ : ByteArray) = bytes.toByteArray := ByteArray.ext List.data_toByteArray.symm
  rw [toUtf8_eq, fromUtf8, String.fromUTF8?, hbytes, Option.map_eq_some_iff]
  constructor
  · rintro ⟨string, hstring, rfl⟩
    split_ifs at hstring with hvalid
    cases hstring
    have hencode : (String.fromUTF8 bytes.toByteArray hvalid).toList.utf8Encode = bytes.toByteArray :=
      String.utf8Encode_toList
    rw [List.utf8Encode] at hencode
    have hdata := congrArg (·.data.toList) hencode
    simpa only [List.data_toByteArray] using hdata.symm
  · rintro rfl
    have hvalid : (text.flatMap String.utf8EncodeChar).toByteArray.IsValidUTF8 := .intro text rfl
    refine ⟨String.ofList text, ?_, String.toList_ofList⟩
    rw [dif_pos hvalid]
    rfl

/-- A byte of a character that is below 0x80 is the character. -/
theorem eq_of_mem_utf8EncodeChar {c : Char} {byte : UInt8} (h : byte ∈ String.utf8EncodeChar c)
    (hascii : byte.toNat < 0x80) : String.utf8EncodeChar c = [byte] ∧ c.toNat = byte.toNat := by
  -- Every byte of a longer character has its high bit.
  have hhigh {n : ℕ} (hle : 0x80 ≤ n) (hlt : n < 0x100) (hbyte : byte = UInt8.ofNat n) : False := by
    have hnat : byte.toNat = n := by rw [hbyte, UInt8.toNat_ofNat', Nat.mod_eq_of_lt hlt]
    omega
  unfold String.utf8EncodeChar at h ⊢
  dsimp only at h ⊢
  split_ifs at h ⊢ with hone htwo hthree
  · rw [List.mem_singleton] at h
    refine ⟨by rw [h], ?_⟩
    rw [h, UInt8.toNat_ofNat', Nat.mod_eq_of_lt (by omega)]
    rfl
  · simp only [List.mem_cons, List.not_mem_nil, or_false] at h
    rcases h with h | h <;> exact (hhigh (by omega) (by omega) h).elim
  · simp only [List.mem_cons, List.not_mem_nil, or_false] at h
    rcases h with h | h | h <;> exact (hhigh (by omega) (by omega) h).elim
  · simp only [List.mem_cons, List.not_mem_nil, or_false] at h
    rcases h with h | h | h | h <;> exact (hhigh (by omega) (by omega) h).elim

/-- The text is cut where its bytes are cut at a byte below 0x80. -/
theorem exists_of_toUtf8_eq_append {text : Text} {before after : List UInt8} {byte : UInt8}
    (h : toUtf8 text = before ++ byte :: after) (hascii : byte.toNat < 0x80) :
    ∃ front back, text = front ++ Char.ofNat byte.toNat :: back ∧ toUtf8 front = before ∧ toUtf8 back = after := by
  induction text generalizing before with
  | nil => 
    rw [toUtf8_eq, List.flatMap_nil] at h
    simp at h
  | cons c text ih =>
    rw [toUtf8_cons] at h
    rcases List.append_eq_append_iff.mp h with ⟨more, rfl, hrest⟩ | ⟨more, hchar, hrest⟩
    · obtain ⟨front, back, rfl, hfront, hback⟩ := ih hrest
      exact ⟨c :: front, back, rfl, by rw [toUtf8_cons, hfront], hback⟩
    · cases more with
      | nil =>
        obtain ⟨front, back, rfl, hfront, hback⟩ := @ih [] (by simpa using hrest.symm)
        refine ⟨c :: front, back, rfl, ?_, hback⟩
        rw [toUtf8_cons, hfront, hchar, List.append_nil, List.append_nil]
      | cons first more =>
        rw [List.cons_append, List.cons.injEq] at hrest
        obtain ⟨rfl, hafter⟩ := hrest
        obtain ⟨hsingle, hnat⟩ := eq_of_mem_utf8EncodeChar (by rw [hchar]; simp) hascii
        rw [hsingle] at hchar
        have hlength := congrArg List.length hchar
        rw [List.length_singleton, List.length_append, List.length_cons] at hlength
        obtain rfl : before = [] := List.length_eq_zero_iff.mp (by omega)
        obtain rfl : more = [] := List.length_eq_zero_iff.mp (by omega)
        refine ⟨[], text, ?_, by rw [toUtf8_eq, List.flatMap_nil], hafter.symm⟩
        rw [← hnat, Char.ofNat_toNat, List.nil_append]

theorem toUtf8_eq_nil_iff {text : Text} : toUtf8 text = [] ↔ text = [] := by
  cases text with
  | nil => simp [toUtf8_eq]
  | cons c text =>
    rw [toUtf8_cons, List.append_eq_nil_iff]
    simp

/-- Bytes below 0x80 are text as they are. -/
theorem eq_map_of_toUtf8 {bytes : List UInt8} (hascii : ∀ byte ∈ bytes, byte.toNat < 0x80) {text : Text}
    (h : toUtf8 text = bytes) : text = bytes.map fun byte => Char.ofNat byte.toNat := by
  induction bytes generalizing text with
  | nil => exact toUtf8_eq_nil_iff.mp h
  | cons byte bytes ih =>
    rw [List.forall_mem_cons] at hascii
    obtain ⟨front, back, rfl, hfront, hback⟩ := @exists_of_toUtf8_eq_append _ [] _ _ h hascii.1
    rw [toUtf8_eq_nil_iff.mp hfront, ih hascii.2 hback, List.nil_append, List.map_cons]

theorem exists_of_toUtf8_eq_append_ascii {text : Text} {before bytes : List UInt8} (h : toUtf8 text = before ++ bytes)
    (hascii : ∀ byte ∈ bytes, byte.toNat < 0x80) :
    ∃ front, text = front ++ bytes.map (fun byte => Char.ofNat byte.toNat) ∧ toUtf8 front = before := by
  cases bytes with
  | nil => exact ⟨text, by rw [List.map_nil, List.append_nil], by rwa [List.append_nil] at h⟩
  | cons byte bytes =>
    rw [List.forall_mem_cons] at hascii
    obtain ⟨front, back, rfl, hfront, hback⟩ := exists_of_toUtf8_eq_append h hascii.1
    exact ⟨front, by rw [eq_map_of_toUtf8 hascii.2 hback, List.map_cons], hfront⟩

end Kmsrs.Text
