import ItemMapper.Bytes.Utf8
import ItemMapper.Proofs.Computation

/-!
# Texts as UTF-8

The bytes of a text are those of its characters one after the other, so that reading them can be
followed character by character, with any bytes behind.

## Main statements

* `utf8_ofList`: the bytes of a text.
* `utf8_of_ascii`: a text of ASCII characters has one byte for each of them.
* `Utf8.decode_utf8`: the bytes of a text are read as the text.
-/

namespace ItemMapper

/-! ### The bytes of a text -/

theorem byteArray_toList_loop (bytes : ByteArray) (i : Nat) (read : List UInt8) :
    ByteArray.toList.loop bytes i read = read.reverse ++ bytes.data.toList.drop i := by
  fun_induction ByteArray.toList.loop bytes i read with
  | case1 i read h ih =>
    have hi : i < bytes.data.toList.length := by simpa using h
    rw [ih, List.drop_eq_getElem_cons hi]
    simp [ByteArray.get!, h]
  | case2 i read h =>
    rw [List.drop_eq_nil_of_le (by simpa using Nat.le_of_not_lt h), List.append_nil]

theorem byteArray_toList (bytes : ByteArray) : bytes.toList = bytes.data.toList := by
  rw [ByteArray.toList, byteArray_toList_loop, List.reverse_nil, List.nil_append, List.drop_zero]

/-- The bytes of a text are the bytes of its characters. -/
theorem utf8_ofList (cs : List Char) : utf8 (String.ofList cs) = cs.flatMap String.utf8EncodeChar := by
  rw [utf8, String.toUTF8, String.toByteArray_ofList, List.utf8Encode, byteArray_toList,
    List.toList_data_toByteArray]

theorem utf8EncodeChar_of_ascii {ch : Char} (h : ch.toNat < 128) :
    String.utf8EncodeChar ch = [UInt8.ofNat ch.toNat] := by
  have hle : ch.val.toNat ≤ 127 := Nat.le_of_lt_succ h
  simp only [String.utf8EncodeChar, if_pos hle]
  rfl

/-- A text of ASCII characters has one byte for each of them. -/
theorem utf8_of_ascii {cs : List Char} (h : ∀ ch ∈ cs, ch.toNat < 128) :
    utf8 (String.ofList cs) = cs.map fun ch => UInt8.ofNat ch.toNat := by
  rw [utf8_ofList]
  induction cs with
  | nil => rfl
  | cons ch cs ih =>
    rw [List.flatMap_cons, List.map_cons, utf8EncodeChar_of_ascii (h ch List.mem_cons_self),
      ih fun c hc => h c (List.mem_cons_of_mem ch hc), List.singleton_append]

/-- Only the empty text has no bytes. -/
theorem utf8_eq_nil {text : String} (h : utf8 text = []) : text = "" := by
  rw [← String.ofList_toList (s := text), utf8_ofList, List.flatMap_eq_nil_iff] at h
  have hempty : text.toList = [] :=
    List.eq_nil_iff_forall_not_mem.mpr fun ch hch => String.utf8EncodeChar_ne_nil (h ch hch)
  rw [← String.ofList_toList (s := text), hempty]

namespace Utf8

/-! ### Reading a character -/

theorem isTail_ofNat (n : Nat) : isTail (n % 64 + 128) = true := by
  simp only [isTail, Bool.and_eq_true, decide_eq_true_eq]
  omega

/-- A second byte continues a character unless the first one asks for more. -/
theorem isSecond_of_isTail {first second : Nat} (htail : isTail second = true)
    (hlow : (first = 0xE0 → 0xA0 ≤ second) ∧ (first = 0xF0 → 0x90 ≤ second))
    (hhigh : (first = 0xED → second ≤ 0x9F) ∧ (first = 0xF4 → second ≤ 0x8F)) :
    isSecond first second = true := by
  have hbounds : 0x80 ≤ second ∧ second ≤ 0xBF := by
    simpa only [isTail, Bool.and_eq_true, decide_eq_true_eq] using htail
  unfold isSecond
  split
  · simp only [Bool.and_eq_true, decide_eq_true_eq]
    omega
  split
  · simp only [Bool.and_eq_true, decide_eq_true_eq]
    omega
  split
  · simp only [Bool.and_eq_true, decide_eq_true_eq]
    omega
  split
  · simp only [Bool.and_eq_true, decide_eq_true_eq]
    omega
  · exact htail

/-- Reads a character of two bytes. -/
theorem readChar_two (index : Nat) {v : Nat} (rest : List Nat) (hlow : 0x80 ≤ v) (hhigh : v < 0x800) :
    readChar index (v / 64 % 32 + 192) ((v % 64 + 128) :: rest) = .ok (v, 1) := by
  unfold readChar
  rw [if_neg (by omega), if_pos (by omega)]
  dsimp only
  rw [if_pos (isTail_ofNat v), Except.ok.injEq, Prod.mk.injEq]
  omega

/-- Reads a character of three bytes. -/
theorem readChar_three (index : Nat) {v : Nat} (rest : List Nat) (hlow : 0x800 ≤ v)
    (hhigh : v < 0x10000) (hsurrogate : v < 0xD800 ∨ 0xDFFF < v) :
    readChar index (v / 4096 % 16 + 224) ((v / 64 % 64 + 128) :: (v % 64 + 128) :: rest) =
      .ok (v, 2) := by
  have hsecond : isSecond (v / 4096 % 16 + 224) (v / 64 % 64 + 128) = true :=
    isSecond_of_isTail (isTail_ofNat _) ⟨by omega, by omega⟩ ⟨by omega, by omega⟩
  unfold readChar
  rw [if_neg (by omega), if_neg (by omega), if_pos (by omega)]
  dsimp only
  rw [hsecond, if_neg (by decide), if_pos (isTail_ofNat v), Except.ok.injEq, Prod.mk.injEq]
  omega

/-- Reads a character of four bytes. -/
theorem readChar_four (index : Nat) {v : Nat} (rest : List Nat) (hlow : 0x10000 ≤ v)
    (hhigh : v < 0x110000) :
    readChar index (v / 262144 % 8 + 240)
        ((v / 4096 % 64 + 128) :: (v / 64 % 64 + 128) :: (v % 64 + 128) :: rest) =
      .ok (v, 3) := by
  have hsecond : isSecond (v / 262144 % 8 + 240) (v / 4096 % 64 + 128) = true :=
    isSecond_of_isTail (isTail_ofNat _) ⟨by omega, by omega⟩ ⟨by omega, by omega⟩
  unfold readChar
  rw [if_neg (by omega), if_neg (by omega), if_neg (by omega), if_pos (by omega)]
  dsimp only
  rw [hsecond, if_neg (by decide), isTail_ofNat (v / 64), if_neg (by decide),
    if_pos (isTail_ofNat v), Except.ok.injEq, Prod.mk.injEq]
  omega

/-- The bytes of a character are read as the character, whatever stands behind them. -/
theorem readChar_utf8EncodeChar (index : Nat) (ch : Char) (rest : List UInt8) :
    ∃ first tail, String.utf8EncodeChar ch = first :: tail ∧
      readChar index first.toNat (((tail ++ rest).take 3).map UInt8.toNat) =
        .ok (ch.toNat, tail.length) := by
  have hvalid : ch.val.toNat < 0xD800 ∨ 0xDFFF < ch.val.toNat ∧ ch.val.toNat < 0x110000 := ch.valid
  simp only [String.utf8EncodeChar, Char.toNat]
  generalize ch.val.toNat = v at hvalid ⊢
  have hbyte : ∀ {n : Nat}, n < 256 → (UInt8.ofNat n).toNat = n := UInt8.toNat_ofNat_of_lt'
  split
  · refine ⟨_, [], rfl, ?_⟩
    rw [hbyte (by omega)]
    exact if_pos (by omega)
  split
  · refine ⟨_, _, rfl, ?_⟩
    simp only [List.cons_append, List.nil_append, List.take_succ_cons, List.map_cons]
    rw [hbyte (by omega), hbyte (by omega)]
    exact readChar_two index _ (by omega) (by omega)
  split
  · refine ⟨_, _, rfl, ?_⟩
    simp only [List.cons_append, List.nil_append, List.take_succ_cons, List.map_cons]
    rw [hbyte (by omega), hbyte (by omega), hbyte (by omega)]
    exact readChar_three index _ (by omega) (by omega) (by omega)
  · refine ⟨_, _, rfl, ?_⟩
    simp only [List.cons_append, List.nil_append, List.take_succ_cons, List.map_cons]
    rw [hbyte (by omega), hbyte (by omega), hbyte (by omega), hbyte (by omega)]
    exact readChar_four index _ (by omega) (by omega)

/-! ### Reading a text -/

/-- The bytes that belong to the character before are skipped. -/
theorem decodeFrom_skip (index : Nat) (tail rest : List UInt8) :
    decodeFrom index tail.length (tail ++ rest) = decodeFrom (index + tail.length) 0 rest := by
  induction tail generalizing index with
  | nil => rfl
  | cons byte tail ih =>
    rw [List.cons_append, List.length_cons, decodeFrom, ih, Nat.add_right_comm, Nat.add_assoc]

theorem decodeFrom_flatMap (index : Nat) (cs : List Char) :
    decodeFrom index 0 (cs.flatMap String.utf8EncodeChar) = .ok cs := by
  induction cs generalizing index with
  | nil => rfl
  | cons ch cs ih =>
    obtain ⟨first, tail, hbytes, hread⟩ :=
      readChar_utf8EncodeChar index ch (cs.flatMap String.utf8EncodeChar)
    rw [List.flatMap_cons, hbytes, List.cons_append, decodeFrom]
    simp only [hread, decodeFrom_skip, ih, Except.map, Char.ofNat_toNat]

/-- The bytes of a text are read as the text. -/
theorem decode_utf8 (text : String) : decode (utf8 text) = .ok text := by
  rw [← String.ofList_toList (s := text), utf8_ofList, decode, decodeFrom_flatMap, Except.map]

/-- Bytes that are read as an empty text are none. -/
theorem eq_nil_of_decode {bytes : Bytes} (h : decode bytes = .ok "") : bytes = [] := by
  rw [decode, except_map_eq_ok] at h
  obtain ⟨cs, hread, hempty⟩ := h
  rw [← String.toList_inj, String.toList_ofList] at hempty
  cases bytes with
  | nil => rfl
  | cons byte rest =>
    rw [decodeFrom] at hread
    split at hread
    · cases hread
    · obtain ⟨rest', -, rfl⟩ := except_map_eq_ok.mp hread
      cases hempty

end Utf8

end ItemMapper
