import ItemMapper.Bytes.Base64
import ItemMapper.Proofs.Bytes.Utf8

/-!
# Base64 is read back

A byte string is cut into groups of three bytes and a last group of one to three. Each of the former
is four symbols, and the last group is filled up to four with padding, so that reading finds the same
last group and the same groups before it.

## Main statements

* `Base64.decode_encode`: the Base64 text of a byte string is read as the byte string.
* `Base64.eq_nil_of_decode`: only the empty text is read as no bytes.
-/

namespace ItemMapper.Base64

/-! ### Symbols -/

/-- The byte of the symbol for six bits. -/
def symbolByte (n : Nat) : UInt8 := UInt8.ofNat (symbol n).toNat

theorem symbol_spec : ∀ n < 64, (symbol n).toNat < 128 ∧ sextet? (symbolByte n) = some n ∧
    symbolByte n ≠ pad := by decide

/-- What a byte string is cut into: the sextets of whole groups, and those of a last group with its
padding. -/
structure Cut (bytes : Bytes) (groups last : List Nat) (padding : Nat) : Prop where
  bounded : ∀ n ∈ groups ++ last, n < 64
  chars : encodeChars bytes = (groups ++ last).map symbol ++ List.replicate padding '='
  whole : groups.length % 4 = 0
  filled : last.length + padding = 4
  enough : 2 ≤ last.length
  spare : spareBits last = 0
  holds : ofSextets (groups ++ last) = bytes

theorem ofNat_eq {n : Nat} (byte : UInt8) (h : n = byte.toNat) : UInt8.ofNat n = byte := by
  rw [h, UInt8.ofNat_toNat]

/-- The sextets of three bytes. -/
def tripleSextets (a b c : UInt8) : List Nat :=
  let n := a.toNat * 65536 + b.toNat * 256 + c.toNat
  [n / 262144, n / 4096 % 64, n / 64 % 64, n % 64]

theorem lt_of_mem_tripleSextets {a b c : UInt8} {n : Nat} (h : n ∈ tripleSextets a b c) : n < 64 := by
  have ha := a.toNat_lt
  have hb := b.toNat_lt
  have hc := c.toNat_lt
  simp only [tripleSextets, List.mem_cons, List.not_mem_nil, or_false] at h
  omega

theorem ofSextets_triple (a b c : UInt8) (rest : List Nat) :
    ofSextets (tripleSextets a b c ++ rest) = a :: b :: c :: ofSextets rest := by
  have ha := a.toNat_lt
  have hb := b.toNat_lt
  have hc := c.toNat_lt
  simp only [tripleSextets, List.cons_append, List.nil_append, ofSextets]
  rw [ofNat_eq a (by omega), ofNat_eq b (by omega),
    ofNat_eq c (by omega)]

/-- A byte string that is not empty is cut into groups. -/
theorem exists_cut {bytes : Bytes} (h : bytes ≠ []) :
    ∃ groups last padding, Cut bytes groups last padding := by
  fun_induction encodeChars bytes with
  | case1 a b c rest n ih =>
    by_cases hrest : rest = []
    · subst hrest
      refine ⟨[], tripleSextets a b c, 0, ?_, rfl, rfl, rfl, by simp [tripleSextets], rfl, ?_⟩
      · exact fun n hn => lt_of_mem_tripleSextets hn
      · exact ofSextets_triple a b c []
    · obtain ⟨groups, last, padding, hcut⟩ := ih hrest
      refine ⟨tripleSextets a b c ++ groups, last, padding, ?_, ?_, ?_, hcut.filled, hcut.enough,
        hcut.spare, ?_⟩
      · intro n hn
        rw [List.append_assoc] at hn
        rcases List.mem_append.mp hn with hn | hn
        · exact lt_of_mem_tripleSextets hn
        · exact hcut.bounded n hn
      · rw [encodeChars, hcut.chars]
        rfl
      · have hwhole := hcut.whole
        simp only [tripleSextets, List.length_append, List.length_cons, List.length_nil]
        omega
      · rw [List.append_assoc, ofSextets_triple, hcut.holds]
  | case2 a b n =>
    have ha := a.toNat_lt
    have hb := b.toNat_lt
    refine ⟨[], [n / 4096, n / 64 % 64, n % 64], 1, ?_, rfl, rfl, rfl, by simp, ?_, ?_⟩
    · intro m hm
      simp only [List.nil_append, List.mem_cons, List.not_mem_nil, or_false] at hm
      omega
    · simp only [spareBits]
      omega
    · simp only [List.nil_append, ofSextets]
      rw [ofNat_eq a (by omega), ofNat_eq b (by omega)]
  | case3 a n =>
    have ha := a.toNat_lt
    refine ⟨[], [n / 64, n % 64], 2, ?_, rfl, rfl, rfl, by simp, ?_, ?_⟩
    · intro m hm
      simp only [List.nil_append, List.mem_cons, List.not_mem_nil, or_false] at hm
      omega
    · simp only [spareBits]
      omega
    · simp only [List.nil_append, ofSextets]
      rw [ofNat_eq a (by omega)]
  | case4 => exact absurd rfl h

/-! ### Reading -/

theorem readGroups_symbols (offset : Nat) {sextets : List Nat} (h : ∀ n ∈ sextets, n < 64) :
    readGroups offset (sextets.map symbolByte) = .ok sextets := by
  induction sextets generalizing offset with
  | nil => rfl
  | cons n rest ih =>
    obtain ⟨-, hsextet, -⟩ := symbol_spec n (h n List.mem_cons_self)
    rw [List.map_cons, readGroups, hsextet]
    dsimp only
    rw [ih (offset + 1) fun m hm => h m (List.mem_cons_of_mem n hm)]
    rfl

/-- The symbols of a last group are read before its padding. -/
theorem readLastGroup_symbols (start index : Nat) (group : LastGroup) (hgroup : group.padding = 0)
    {sextets : List Nat} (h : ∀ n ∈ sextets, n < 64) (rest : Bytes) :
    readLastGroup start index group (sextets.map symbolByte ++ rest) =
      readLastGroup start (index + sextets.length)
        { sextets := group.sextets ++ sextets
          lastSymbol := (sextets.map symbolByte).getLastD group.lastSymbol
          padding := 0 } rest := by
  induction sextets generalizing index group with
  | nil =>
    rw [List.append_nil, ← hgroup]
    rfl
  | cons n sextets ih =>
    obtain ⟨-, hsextet, hpad⟩ := symbol_spec n (h n List.mem_cons_self)
    have hnone : ¬ 0 < group.padding := by omega
    rw [List.map_cons, List.cons_append, readLastGroup, if_neg hpad, if_neg hnone, hsextet]
    dsimp only
    rw [ih _ ⟨group.sextets ++ [n], symbolByte n, group.padding⟩ hgroup
      fun m hm => h m (List.mem_cons_of_mem n hm)]
    simp only [List.append_assoc, List.singleton_append, List.length_cons, List.getLastD_cons]
    congr 1
    omega

theorem readLastGroup_padding (start : Nat) {index : Nat} (hindex : 2 ≤ index) (group : LastGroup)
    (count : Nat) :
    readLastGroup start index group (List.replicate count pad) =
      .ok { group with padding := group.padding + count } := by
  induction count generalizing index group with
  | zero => rfl
  | succ count ih =>
    have hsmall : ¬ index < 2 := by omega
    rw [List.replicate_succ, readLastGroup, if_pos rfl, if_neg hsmall, ih (by omega)]
    simp only [Nat.add_assoc, Nat.add_comm 1]

/-- The groups that a byte string is cut into are found again. -/
theorem decodeBytes_of_cut {bytes : Bytes} {groups last : List Nat} {padding : Nat}
    (h : Cut bytes groups last padding) :
    decodeBytes ((groups ++ last).map symbolByte ++ List.replicate padding pad) = .ok bytes := by
  have hbounded : (∀ n ∈ groups, n < 64) ∧ ∀ n ∈ last, n < 64 :=
    List.forall_mem_append.mp h.bounded
  have hwhole := h.whole
  have hfilled := h.filled
  have henough := h.enough
  have hlength : ((groups ++ last).map symbolByte ++ List.replicate padding pad).length =
      groups.length + 4 := by
    simp only [List.length_append, List.length_map, List.length_replicate]
    omega
  have hgroups : readGroups 0 (groups.map symbolByte) = .ok groups :=
    readGroups_symbols 0 hbounded.1
  have hlast : readLastGroup groups.length 0 {}
      (last.map symbolByte ++ List.replicate padding pad) =
        .ok ⟨last, (last.map symbolByte).getLastD 0, padding⟩ := by
    rw [readLastGroup_symbols _ _ _ rfl hbounded.2, readLastGroup_padding _ (by omega)]
    simp only [List.nil_append, Nat.zero_add]
  have hcheck : checkLastGroup groups.length ⟨last, (last.map symbolByte).getLastD 0, padding⟩ =
      .ok () := by
    unfold checkLastGroup
    simp only [h.spare, hfilled, ne_eq, Nat.mod_self, not_true_eq_false, if_false,
      if_neg (Nat.not_lt.mpr henough)]
    rfl
  unfold decodeBytes
  simp only [hlength]
  rw [if_neg (by omega), if_neg (by omega), if_pos (by omega), Nat.add_sub_cancel, List.map_append,
    List.append_assoc, List.take_left' (List.length_map _), List.drop_left' (List.length_map _),
    hgroups]
  change (do
    let group ← readLastGroup groups.length 0 {} (last.map symbolByte ++ List.replicate padding pad)
    checkLastGroup groups.length group
    return ofSextets (groups ++ group.sextets)) = Except.ok bytes
  rw [hlast]
  change (do
    checkLastGroup groups.length ⟨last, (last.map symbolByte).getLastD 0, padding⟩
    return ofSextets (groups ++ last)) = Except.ok bytes
  rw [hcheck, ← h.holds]
  rfl

/-- The Base64 text of a byte string is read as the byte string. -/
theorem decode_encode (bytes : Bytes) : decode (encode bytes) = .ok bytes := by
  by_cases hempty : bytes = []
  · rw [hempty, decode, encode, encodeChars, utf8_ofList]
    rfl
  obtain ⟨groups, last, padding, hcut⟩ := exists_cut hempty
  have hascii : ∀ ch ∈ encodeChars bytes, ch.toNat < 128 := by
    intro ch hch
    rw [hcut.chars] at hch
    rcases List.mem_append.mp hch with hch | hch
    · obtain ⟨n, hn, rfl⟩ := List.mem_map.mp hch
      exact (symbol_spec n (hcut.bounded n hn)).1
    · rw [List.eq_of_mem_replicate hch]
      decide
  rw [decode, encode, utf8_of_ascii hascii, hcut.chars, List.map_append, List.map_map,
    List.map_replicate]
  exact decodeBytes_of_cut hcut

/-- Only the empty text is read as no bytes. -/
theorem eq_nil_of_decode {text : String} (h : decode text = .ok []) : text = "" := by
  refine utf8_eq_nil (Classical.byContradiction fun hne => ?_)
  have hlength : ¬ (utf8 text).length = 0 := fun hzero => hne (List.eq_nil_of_length_eq_zero hzero)
  unfold decode decodeBytes at h
  simp only [if_neg hlength] at h
  split at h
  · cases h
  simp only [except_bind_eq_ok] at h
  obtain ⟨groups, -, group, -, u, hcheck, hbytes⟩ := h
  have henough : ¬ group.sextets.length < 2 := by
    intro hfew
    unfold checkLastGroup at hcheck
    rw [if_pos hfew] at hcheck
    cases hcheck
  have hsome : ∀ sextets : List Nat, 2 ≤ sextets.length → ofSextets sextets ≠ [] := by
    intro sextets hmany
    match sextets with
    | [_, _] | [_, _, _] | _ :: _ :: _ :: _ :: _ => simp [ofSextets]
  refine hsome (groups ++ group.sextets) ?_ (Except.ok.inj hbytes)
  rw [List.length_append]
  omega

end ItemMapper.Base64
