import ItemMapper.Bytes.Percent
import ItemMapper.Proofs.Bytes.Utf8

/-!
# Percent escapes are read back

The escaped text of a byte string is made of ASCII characters, the vertical bar not among them, and
stands for the byte string that it was made of.

## Main statements

* `Percent.bar_not_mem_encode`: escaped texts can be joined by vertical bars.
* `Percent.decode_utf8_encode`: escapes are read back.
* `Percent.eq_nil_of_decode`: something stands for something.
-/

namespace ItemMapper.Percent

/-! ### The characters of escapes -/

theorem hexDigit_spec : ∀ n < 16, (hexDigit n).toNat < 128 ∧ hexDigit n ≠ '|' ∧
    hexValue? (UInt8.ofNat (hexDigit n).toNat) = some n := by decide

theorem toNat_ofNat_byte (byte : UInt8) : (Char.ofNat byte.toNat).toNat = byte.toNat := by
  have hlt := byte.toNat_lt
  rw [Char.ofNat, dif_pos (.inl (by omega))]
  rfl

/-- A byte that stands for itself is a printable ASCII character other than the two that are
escaped. -/
theorem bounds_of_not_isEscaped {byte : UInt8} (h : isEscaped byte = false) :
    byte.toNat < 127 ∧ byte.toNat ≠ '%'.toNat ∧ byte.toNat ≠ '|'.toNat := by
  simp only [isEscaped, Bool.or_eq_false_iff, decide_eq_false_iff_not] at h
  omega

/-- What stands for a byte are ASCII characters without a vertical bar. -/
theorem mem_encodeByte {byte : UInt8} {ch : Char} (h : ch ∈ encodeByte byte) :
    ch.toNat < 128 ∧ ch ≠ '|' := by
  have hlt := byte.toNat_lt
  cases hescaped : isEscaped byte with
  | true =>
    rw [encodeByte, hescaped, if_pos rfl] at h
    have hhigh := hexDigit_spec (byte.toNat / 16) (by omega)
    have hlow := hexDigit_spec (byte.toNat % 16) (by omega)
    simp only [List.mem_cons, List.not_mem_nil, or_false] at h
    rcases h with rfl | rfl | rfl
    · decide
    · exact ⟨hhigh.1, hhigh.2.1⟩
    · exact ⟨hlow.1, hlow.2.1⟩
  | false =>
    rw [encodeByte, hescaped, if_neg Bool.false_ne_true, List.mem_singleton] at h
    obtain ⟨hascii, -, hbar⟩ := bounds_of_not_isEscaped hescaped
    rw [h, toNat_ofNat_byte]
    refine ⟨by omega, fun heq => hbar ?_⟩
    rw [← toNat_ofNat_byte, heq]

/-- Escaped texts can be joined by vertical bars. -/
theorem bar_not_mem_encode (bytes : Bytes) : '|' ∉ (encode bytes).toList := by
  rw [encode, String.toList_ofList, List.mem_flatMap]
  rintro ⟨byte, -, hmem⟩
  exact (mem_encodeByte hmem).2 rfl

/-- Something is written for every byte. -/
theorem eq_nil_of_encode {bytes : Bytes} (h : (encode bytes).toList = []) : bytes = [] := by
  rw [encode, String.toList_ofList, List.flatMap_eq_nil_iff] at h
  refine List.eq_nil_iff_forall_not_mem.mpr fun byte hbyte => ?_
  have hnil := h byte hbyte
  unfold encodeByte at hnil
  split at hnil <;> cases hnil

/-! ### Reading escapes -/

theorem decode_cons_of_ne {byte : UInt8} (h : byte.toNat ≠ '%'.toNat) (rest : Bytes) :
    decode (byte :: rest) = byte :: decode rest := by
  match rest with
  | [] => rfl
  | [_] => rfl
  | high :: low :: rest => rw [decode, if_neg h]

/-- What stands for a byte is read as the byte, whatever stands behind it. -/
theorem decode_encodeByte (byte : UInt8) (rest : Bytes) :
    decode ((encodeByte byte).map (fun ch => UInt8.ofNat ch.toNat) ++ rest) =
      byte :: decode rest := by
  have hlt := byte.toNat_lt
  cases hescaped : isEscaped byte with
  | true =>
    obtain ⟨-, -, hhigh⟩ := hexDigit_spec (byte.toNat / 16) (by omega)
    obtain ⟨-, -, hlow⟩ := hexDigit_spec (byte.toNat % 16) (by omega)
    rw [encodeByte, hescaped, if_pos rfl]
    simp only [List.map_cons, List.map_nil, List.cons_append, List.nil_append]
    rw [decode, if_pos (by decide)]
    simp only [hhigh, hlow, Nat.div_add_mod', UInt8.ofNat_toNat]
  | false =>
    rw [encodeByte, hescaped, if_neg Bool.false_ne_true, List.map_singleton, toNat_ofNat_byte,
      UInt8.ofNat_toNat, List.singleton_append,
      decode_cons_of_ne (bounds_of_not_isEscaped hescaped).2.1]

/-- Escapes are read back. -/
theorem decode_utf8_encode (bytes : Bytes) : decode (utf8 (encode bytes)) = bytes := by
  rw [encode, utf8_of_ascii]
  · induction bytes with
    | nil => rfl
    | cons byte bytes ih => rw [List.flatMap_cons, List.map_append, decode_encodeByte, ih]
  · intro ch hch
    obtain ⟨byte, -, hmem⟩ := List.mem_flatMap.mp hch
    exact (mem_encodeByte hmem).1

/-- Only no bytes stand for no bytes. -/
theorem eq_nil_of_decode {bytes : Bytes} (h : decode bytes = []) : bytes = [] := by
  fun_cases decode bytes <;> simp_all [decode]

end ItemMapper.Percent
