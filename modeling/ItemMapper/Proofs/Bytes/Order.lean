import ItemMapper.Proofs.Bytes.Utf8

/-!
# UTF-8 keeps the order

Texts are compared by their characters. Their bytes compare alike: a smaller character has fewer bytes
and then a smaller first byte, or as many bytes, of which the first that differs is smaller. So it is the
same whether texts are put in order by characters or byte by byte.

## Main statements

* `compareBytes_utf8EncodeChar`: the bytes of a smaller character come first, whatever stands behind.
* `compareText_eq_compareBytes`: texts compare as their bytes do.
-/

namespace ItemMapper

/-! ### The bytes of a character -/

theorem compareBytes_cons_of_lt {m n : Nat} (hn : n < 256) (h : m < n) (xs ys : Bytes) :
    compareBytes (UInt8.ofNat m :: xs) (UInt8.ofNat n :: ys) = .lt := by
  have hlt : UInt8.ofNat m < UInt8.ofNat n := by
    rw [UInt8.lt_iff_toNat_lt, UInt8.toNat_ofNat_of_lt' hn,
      UInt8.toNat_ofNat_of_lt' (Nat.lt_trans h hn)]
    exact h
  rw [compareBytes, List.compareLex_cons_cons, Std.compare_eq_lt.mpr hlt]
  rfl

theorem compareBytes_cons_self (byte : UInt8) (xs ys : Bytes) :
    compareBytes (byte :: xs) (byte :: ys) = compareBytes xs ys := by
  rw [compareBytes, List.compareLex_cons_cons, @Std.ReflCmp.compare_self _ compare]
  rfl

theorem compareBytes_append_left (xs ys zs : Bytes) :
    compareBytes (xs ++ ys) (xs ++ zs) = compareBytes ys zs := by
  induction xs with
  | nil => rfl
  | cons byte xs ih => rw [List.cons_append, List.cons_append, compareBytes_cons_self, ih]

/-- A smaller byte in the same place decides, or the byte is the same and the others decide. -/
theorem compareBytes_cons_of_le {m n : Nat} {xs ys : Bytes} (hn : n < 256) (hle : m ≤ n)
    (hrest : m = n → compareBytes xs ys = .lt) :
    compareBytes (UInt8.ofNat m :: xs) (UInt8.ofNat n :: ys) = .lt := by
  rcases Nat.lt_or_eq_of_le hle with hlt | rfl
  · exact compareBytes_cons_of_lt hn hlt xs ys
  · rw [compareBytes_cons_self]
    exact hrest rfl

/-- **The bytes of a smaller character come first**, whatever stands behind them. -/
theorem compareBytes_utf8EncodeChar {c d : Char} (h : c < d) (xs ys : Bytes) :
    compareBytes (String.utf8EncodeChar c ++ xs) (String.utf8EncodeChar d ++ ys) = .lt := by
  have hlt : c.val.toNat < d.val.toNat := UInt32.lt_iff_toNat_lt.mp h
  have hvalid : d.val.toNat < 0x110000 := by
    have := d.valid
    unfold UInt32.isValidChar Nat.isValidChar at this
    omega
  simp only [String.utf8EncodeChar]
  generalize c.val.toNat = v at hlt ⊢
  generalize d.val.toNat = v' at hlt hvalid ⊢
  -- Fewer bytes begin with a smaller one. Of as many, each is no smaller while those before are equal.
  by_cases hone : v' ≤ 127
  · rw [if_pos (by omega), if_pos hone]
    exact compareBytes_cons_of_lt (by omega) hlt _ _
  by_cases htwo : v' ≤ 2047
  · rw [if_neg hone, if_pos htwo]
    split
    · exact compareBytes_cons_of_lt (by omega) (by omega) _ _
    · rw [if_pos (by omega)]
      refine compareBytes_cons_of_le (by omega) (by omega) fun _ => ?_
      exact compareBytes_cons_of_lt (by omega) (by omega) _ _
  by_cases hthree : v' ≤ 65535
  · rw [if_neg hone, if_neg htwo, if_pos hthree]
    split
    · exact compareBytes_cons_of_lt (by omega) (by omega) _ _
    split
    · exact compareBytes_cons_of_lt (by omega) (by omega) _ _
    · rw [if_pos (by omega)]
      refine compareBytes_cons_of_le (by omega) (by omega) fun _ => ?_
      refine compareBytes_cons_of_le (by omega) (by omega) fun _ => ?_
      exact compareBytes_cons_of_lt (by omega) (by omega) _ _
  · rw [if_neg hone, if_neg htwo, if_neg hthree]
    split
    · exact compareBytes_cons_of_lt (by omega) (by omega) _ _
    split
    · exact compareBytes_cons_of_lt (by omega) (by omega) _ _
    split
    · exact compareBytes_cons_of_lt (by omega) (by omega) _ _
    · refine compareBytes_cons_of_le (by omega) (by omega) fun _ => ?_
      refine compareBytes_cons_of_le (by omega) (by omega) fun _ => ?_
      refine compareBytes_cons_of_le (by omega) (by omega) fun _ => ?_
      exact compareBytes_cons_of_lt (by omega) (by omega) _ _

/-! ### The bytes of a text -/

theorem compareLex_chars (cs ds : List Char) :
    List.compareLex compare cs ds =
      compareBytes (cs.flatMap String.utf8EncodeChar) (ds.flatMap String.utf8EncodeChar) := by
  induction cs generalizing ds with
  | nil =>
    cases ds with
    | nil => rfl
    | cons d ds =>
      obtain ⟨byte, bytes, hbytes⟩ := List.exists_cons_of_ne_nil (String.utf8EncodeChar_ne_nil (c := d))
      rw [List.flatMap_cons, hbytes]
      rfl
  | cons c cs ih =>
    cases ds with
    | nil =>
      obtain ⟨byte, bytes, hbytes⟩ := List.exists_cons_of_ne_nil (String.utf8EncodeChar_ne_nil (c := c))
      rw [List.flatMap_cons, hbytes]
      rfl
    | cons d ds =>
      rw [List.compareLex_cons_cons, List.flatMap_cons, List.flatMap_cons]
      cases hcompare : compare c d with
      | lt =>
        have hlt : c < d := compareOfLessAndEq_eq_lt.mp hcompare
        rw [compareBytes_utf8EncodeChar hlt]
        rfl
      | eq =>
        obtain rfl := Std.LawfulEqCmp.eq_of_compare hcompare
        rw [compareBytes_append_left, ← ih]
        rfl
      | gt =>
        have hswap : compare d c = .lt := Std.OrientedCmp.gt_iff_lt.mp hcompare
        have hlt : d < c := compareOfLessAndEq_eq_lt.mp hswap
        rw [@Std.OrientedCmp.eq_swap _ compareBytes, compareBytes_utf8EncodeChar hlt]
        rfl

/-- **Texts compare as their bytes do.** -/
theorem compareText_eq_compareBytes (a b : String) : compareText a b = compareBytes (utf8 a) (utf8 b) := by
  rw [compareText, compareLex_chars, ← utf8_ofList, ← utf8_ofList, String.ofList_toList,
    String.ofList_toList]

end ItemMapper
