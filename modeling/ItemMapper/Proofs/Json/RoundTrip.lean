import ItemMapper.Json.Printer
import ItemMapper.Json.Reader

/-!
# Reading printed JSON

The text of a tree reads as the tree. Numbers are printed as they are given, and trees of texts that
are no JSON as null, so this is about trees without either.

The reader has fuel for twice the length of the text. An array or an object takes one unit for itself
and, for each item, one for the item and what is between it and the next, so two units for every
character are enough.

## Main definitions

* `Json.IsPlain`: trees without numbers that are whole.

## Main statements

* `Json.readString_escaped`: the body of a printed string reads as the string.
* `Json.readValue_print`: a printed tree reads as the tree, whatever follows it.
* `Json.Document.ofText_print`: the text of a tree is a document of the tree.
-/

namespace ItemMapper.Json

mutual
/-- Whether the tree is whole and has no numbers. -/
def IsPlain : Json → Prop
  | null | bool _ | string _ => True
  | array items closed => closed = true ∧ AllPlain items
  | object members ending => ending = .closed ∧ MembersPlain members
  | _ => False

/-- Whether all the trees are plain. -/
def AllPlain : List Json → Prop
  | [] => True
  | item :: rest => item.IsPlain ∧ AllPlain rest

/-- Whether the trees of all the members are plain. -/
def MembersPlain : List (String × Json) → Prop
  | [] => True
  | (_, value) :: rest => value.IsPlain ∧ MembersPlain rest
end

/-! ### Strings -/

theorem codeUnit?_hexPair : ∀ n < 0x20,
    codeUnit? '0' '0' (Nat.digitChar (n / 16)) (Nat.digitChar (n % 16)) = some n := by decide

theorem readString_quote (seen : List Char) (fuel : Nat) (rest : List Char) :
    readString (some seen) (fuel + 1) ('"' :: rest) = some (some (String.ofList seen.reverse), rest) :=
  rfl

theorem readString_char {c : Char} (hquote : c ≠ '"') (hslash : c ≠ '\\')
    (hcontrol : ¬ c.toNat < 0x20) (seen : List Char) (fuel : Nat) (rest : List Char) :
    readString (some seen) (fuel + 1) (c :: rest) = readString (some (c :: seen)) fuel rest := by
  have hplain : ¬ (c.toNat < 0x20 ∨ c = '\\') := not_or.mpr ⟨hcontrol, hslash⟩
  rw [readString.eq_def]
  split
  next heq => cases heq
  next heq =>
    cases heq
    split
    next heq => cases heq
    next heq => exact absurd (List.cons.inj heq).1 hquote
    next heq => exact absurd (List.cons.inj heq).1 hslash
    next heq => exact absurd (List.cons.inj heq).1 hslash
    next heq =>
      cases heq
      rw [if_neg hplain]
      rfl

/-- A character that stands in a string takes one step. -/
theorem readString_escapeChar (seen : List Char) (fuel : Nat) (c : Char) (rest : List Char) :
    readString (some seen) (fuel + 1) (escapeChar c ++ rest) =
      readString (some (c :: seen)) fuel rest := by
  unfold escapeChar
  split
  next hquote =>
    subst hquote
    rfl
  next hquote =>
    split
    next hslash =>
      subst hslash
      rfl
    next hslash =>
      split
      next hcontrol =>
        have hunit := codeUnit?_hexPair c.toNat hcontrol
        have hhigh : ¬ (0xD800 ≤ c.toNat ∧ c.toNat ≤ 0xDBFF) := by omega
        have hlow : ¬ (0xDC00 ≤ c.toNat ∧ c.toNat ≤ 0xDFFF) := by omega
        simp only [hexPair, List.cons_append, List.nil_append]
        rw [readString.eq_def]
        simp only [hunit, if_neg hhigh, if_neg hlow, Option.map_some, Char.ofNat_toNat]
      next hcontrol =>
        exact readString_char hquote hslash hcontrol seen fuel rest

/-- The body of a printed string reads as the string. -/
theorem readString_escaped (text seen rest : List Char) {fuel : Nat} (hfuel : text.length < fuel) :
    readString (some seen) fuel (text.flatMap escapeChar ++ '"' :: rest) =
      some (some (String.ofList (seen.reverse ++ text)), rest) := by
  induction text generalizing seen fuel with
  | nil =>
    obtain ⟨fuel, rfl⟩ := Nat.exists_eq_add_one_of_ne_zero (Nat.ne_zero_of_lt hfuel)
    rw [List.flatMap_nil, List.nil_append, readString_quote, List.append_nil]
  | cons c text ih =>
    obtain ⟨fuel, rfl⟩ := Nat.exists_eq_add_one_of_ne_zero (Nat.ne_zero_of_lt hfuel)
    rw [List.flatMap_cons, List.append_assoc, readString_escapeChar,
      ih (c :: seen) (Nat.lt_of_succ_lt_succ hfuel), List.reverse_cons, List.append_assoc,
      List.singleton_append]

theorem length_le_flatMap_escapeChar (text : List Char) :
    text.length ≤ (text.flatMap escapeChar).length := by
  induction text with
  | nil => exact Nat.le_refl 0
  | cons c text ih =>
    have hone : 1 ≤ (escapeChar c).length := by
      unfold escapeChar
      repeat' split
      all_goals simp [hexPair]
    rw [List.flatMap_cons, List.length_append, List.length_cons]
    omega

/-- The fuel that the reader takes for a string, one more than what is left of the text, is enough. -/
theorem readString_body (text : String) (rest : List Char) :
    readString (some []) ((text.toList.flatMap escapeChar ++ '"' :: rest).length + 1)
      (text.toList.flatMap escapeChar ++ '"' :: rest) = some (some text, rest) := by
  have hfuel : text.toList.length < (text.toList.flatMap escapeChar ++ '"' :: rest).length + 1 := by
    have := length_le_flatMap_escapeChar text.toList
    rw [List.length_append]
    omega
  rw [readString_escaped _ _ _ hfuel, List.reverse_nil, List.nil_append, String.ofList_toList]

/-! ### Printed trees -/

/-- The text of a string, by its characters. -/
theorem toList_printString (text : String) :
    (printString text).toList = '"' :: (text.toList.flatMap escapeChar ++ ['"']) := by
  have hquote : "\"".toList = ['"'] := rfl
  rw [printString, String.toList_append, String.toList_append, hquote, String.toList_ofList,
    List.singleton_append, List.cons_append]

/-- What stands between the brackets of an array. -/
def itemsText (items : List Json) : List Char :=
  [','].intercalate ((printItems items).map String.toList)

/-- What stands between the braces of an object. -/
def membersText (members : List (String × Json)) : List Char :=
  [','].intercalate ((printMembers members).map String.toList)

theorem toList_print_array (items : List Json) (closed : Bool) :
    (array items closed).print.toList = '[' :: (itemsText items ++ [']']) := by
  rw [print, String.toList_append, String.toList_append, String.toList_intercalate]
  rfl

theorem toList_print_object (members : List (String × Json)) (ending : Ending) :
    (object members ending).print.toList = '\x7b' :: (membersText members ++ ['\x7d']) := by
  rw [print, String.toList_append, String.toList_append, String.toList_intercalate]
  rfl

theorem itemsText_singleton (item : Json) : itemsText [item] = item.print.toList := by
  rw [itemsText, printItems, printItems, List.map_cons, List.map_nil, List.intercalate_singleton]

theorem itemsText_cons_cons (item next : Json) (rest : List Json) :
    itemsText (item :: next :: rest) = item.print.toList ++ ',' :: itemsText (next :: rest) := by
  rw [itemsText, itemsText, printItems, printItems, List.map_cons, List.map_cons,
    List.intercalate_cons_cons, List.append_assoc, List.singleton_append]

/-- A member of an object, by its characters. -/
theorem toList_printMember (key : String) (value : Json) :
    (printString key ++ ":" ++ value.print).toList =
      '"' :: (key.toList.flatMap escapeChar ++ '"' :: ':' :: value.print.toList) := by
  rw [String.toList_append, String.toList_append, toList_printString, List.cons_append,
    List.cons_append, List.append_assoc, List.append_assoc]
  rfl

theorem membersText_singleton (key : String) (value : Json) :
    membersText [(key, value)] =
      '"' :: (key.toList.flatMap escapeChar ++ '"' :: ':' :: value.print.toList) := by
  rw [membersText, printMembers, printMembers, List.map_cons, List.map_nil,
    List.intercalate_singleton, toList_printMember]

theorem membersText_cons_cons (key : String) (value : Json) (next : String × Json)
    (rest : List (String × Json)) :
    membersText ((key, value) :: next :: rest) =
      '"' :: (key.toList.flatMap escapeChar ++
        '"' :: ':' :: (value.print.toList ++ ',' :: membersText (next :: rest))) := by
  rw [membersText, membersText, printMembers, printMembers, List.map_cons, List.map_cons,
    List.intercalate_cons_cons, toList_printMember, List.append_assoc, List.singleton_append]
  simp only [List.cons_append, List.append_assoc]

/-- The characters that a plain tree starts with. -/
def openers : List Char := ['n', 't', 'f', '"', '[', '\x7b']

theorem exists_head_print {j : Json} (h : j.IsPlain) :
    ∃ c ∈ openers, ∃ cs, j.print.toList = c :: cs := by
  cases j with
  | null => exact ⟨'n', by decide, _, rfl⟩
  | bool value =>
    cases value with
    | true => exact ⟨'t', by decide, _, rfl⟩
    | false => exact ⟨'f', by decide, _, rfl⟩
  | string text => exact ⟨'"', by decide, _, by rw [print, toList_printString]⟩
  | array items closed => exact ⟨'[', by decide, _, toList_print_array items closed⟩
  | object members ending => exact ⟨'\x7b', by decide, _, toList_print_object members ending⟩
  | number | unkeyed | garbled | broken => exact h.elim

theorem skipBlanks_opener {c : Char} (h : c ∈ openers) (cs : List Char) :
    skipBlanks (c :: cs) = c :: cs := by
  rw [openers] at h
  simp only [List.mem_cons, List.not_mem_nil, or_false] at h
  rcases h with rfl | rfl | rfl | rfl | rfl | rfl <;> rfl

theorem ne_bracket_of_opener {c : Char} (h : c ∈ openers) : c ≠ ']' := by
  rintro rfl
  exact absurd h (by decide)

/-! ### Reading printed trees -/

theorem namedMembers_map_some (members : List (String × Json)) :
    namedMembers (members.map fun member => (some member.1, member.2)) = members := by
  induction members with
  | nil => rfl
  | cons member rest ih => rw [List.map_cons, namedMembers, ih]

theorem objectOf_map_some (members : List (String × Json)) :
    objectOf (members.map fun member => (some member.1, member.2)) true = object members .closed := by
  have hall : ((members.map fun member => (some member.1, member.2)).all (·.1.isSome)) = true := by
    rw [List.all_map, List.all_eq_true]
    exact fun _ _ => rfl
  rw [objectOf, namedMembers_map_some, hall]
  rfl

/-- A key with its colon is read off the members of an object. -/
theorem readMembers_key (fuel : Nat) (key : String) (cs : List Char) :
    readMembers (fuel + 1) ('"' :: (key.toList.flatMap escapeChar ++ '"' :: ':' :: cs)) =
      match readValue fuel cs with
      | (value, none) => ([(some key, value)], none)
      | (value, some rest) =>
        match skipBlanks rest with
        | '\x7d' :: rest => ([(some key, value)], some rest)
        | ',' :: rest =>
          let (members, rest) := readMembers fuel rest
          ((some key, value) :: members, rest)
        | _ => ([(some key, value)], none) := by
  rw [readMembers, skipBlanks_opener (by decide)]
  split
  next heq =>
    cases heq
    rewrite [readString_body]
    rfl
  next hne => exact absurd rfl (hne _)

/-- An item is read off an array, and the end of it or another item. -/
theorem readItems_item {fuel : Nat} {item : Json} {cs rest : List Char}
    (h : readValue fuel cs = (item, some rest)) :
    readItems (fuel + 1) cs =
      match skipBlanks rest with
      | ']' :: rest => ([item], some rest)
      | ',' :: rest =>
        match skipBlanks rest with
        | ']' :: _ => ([item], none)
        | [] => ([item], none)
        | rest =>
          let (items, rest) := readItems fuel rest
          (item :: items, rest)
      | _ => ([item], none) := by
  rewrite [readItems, h]
  rfl

theorem readItems_last {fuel : Nat} {item : Json} {cs rest : List Char}
    (h : readValue fuel cs = (item, some (']' :: rest))) :
    readItems (fuel + 1) cs = ([item], some rest) := by
  rw [readItems_item h]
  rfl

theorem readItems_more {fuel : Nat} {item : Json} {cs more : List Char} {c : Char} (hc : c ∈ openers)
    (h : readValue fuel cs = (item, some (',' :: c :: more))) :
    readItems (fuel + 1) cs =
      (item :: (readItems fuel (c :: more)).1, (readItems fuel (c :: more)).2) := by
  have hcomma : skipBlanks (',' :: c :: more) = ',' :: c :: more := rfl
  rw [readItems_item h, hcomma]
  split
  next heq => cases heq
  next rest heq =>
    cases heq
    rw [skipBlanks_opener hc]
    split
    next heq => exact absurd (List.cons.inj heq).1 (ne_bracket_of_opener hc)
    next heq => cases heq
    next => rfl
  next hne => exact absurd rfl (hne _)

/-- An array that is not empty is read item by item. -/
theorem readValue_array (fuel : Nat) {c : Char} (hc : c ∈ openers) (cs : List Char) :
    readValue (fuel + 1) ('[' :: c :: cs) =
      (array (readItems fuel (c :: cs)).1 (readItems fuel (c :: cs)).2.isSome,
        (readItems fuel (c :: cs)).2) := by
  rw [readValue, skipBlanks_opener (by decide)]
  split
  case h_5 heq =>
    cases heq
    rw [skipBlanks_opener hc]
    split
    next heq => exact absurd (List.cons.inj heq).1 (ne_bracket_of_opener hc)
    next => rfl
  case h_7 hne _ => exact absurd rfl (hne _)
  all_goals
    rename_i heq
    cases heq

/-- An object that is not empty is read member by member. -/
theorem readValue_object (fuel : Nat) (cs : List Char) :
    readValue (fuel + 1) ('\x7b' :: '"' :: cs) =
      (objectOf (readMembers fuel ('"' :: cs)).1 (readMembers fuel ('"' :: cs)).2.isSome,
        (readMembers fuel ('"' :: cs)).2) := by
  rw [readValue, skipBlanks_opener (by decide)]
  split
  case h_6 heq =>
    cases heq
    rw [skipBlanks_opener (by decide)]
    split
    next heq => cases heq
    next heq =>
      cases heq
      rfl
    next hne => exact absurd rfl (hne _)
  case h_7 hne => exact absurd rfl (hne _)
  all_goals
    rename_i heq
    cases heq

theorem readValue_word (fuel : Nat) (rest : List Char) :
    readValue (fuel + 1) (['n', 'u', 'l', 'l'] ++ rest) = (null, some rest) ∧
      readValue (fuel + 1) (['t', 'r', 'u', 'e'] ++ rest) = (bool true, some rest) ∧
      readValue (fuel + 1) (['f', 'a', 'l', 's', 'e'] ++ rest) = (bool false, some rest) :=
  ⟨rfl, rfl, rfl⟩

theorem readValue_empty (fuel : Nat) (rest : List Char) :
    readValue (fuel + 1) ('[' :: ']' :: rest) = (array [] true, some rest) ∧
      readValue (fuel + 1) ('\x7b' :: '\x7d' :: rest) = (object [] .closed, some rest) :=
  ⟨rfl, rfl⟩

theorem readValue_string (fuel : Nat) (text : String) (rest : List Char) :
    readValue (fuel + 1) ('"' :: (text.toList.flatMap escapeChar ++ '"' :: rest)) =
      (string text, some rest) := by
  rw [readValue, skipBlanks_opener (by decide)]
  split
  case h_4 heq =>
    cases heq
    rw [readString_body]
  case h_7 hne _ _ => exact absurd rfl (hne _)
  all_goals
    rename_i heq
    cases heq

theorem readMembers_last {fuel : Nat} {key : String} {value : Json} {cs rest : List Char}
    (h : readValue fuel cs = (value, some ('\x7d' :: rest))) :
    readMembers (fuel + 1) ('"' :: (key.toList.flatMap escapeChar ++ '"' :: ':' :: cs)) =
      ([(some key, value)], some rest) := by
  rw [readMembers_key, h]
  rfl

theorem readMembers_more {fuel : Nat} {key : String} {value : Json} {cs rest : List Char}
    (h : readValue fuel cs = (value, some (',' :: rest))) :
    readMembers (fuel + 1) ('"' :: (key.toList.flatMap escapeChar ++ '"' :: ':' :: cs)) =
      ((some key, value) :: (readMembers fuel rest).1, (readMembers fuel rest).2) := by
  rw [readMembers_key, h]
  rfl

theorem exists_head_itemsText {item : Json} (h : item.IsPlain) (items : List Json) :
    ∃ c ∈ openers, ∃ cs, itemsText (item :: items) = c :: cs := by
  obtain ⟨c, hc, cs, hcs⟩ := exists_head_print h
  cases items with
  | nil => exact ⟨c, hc, cs, by rw [itemsText_singleton, hcs]⟩
  | cons next items => exact ⟨c, hc, _, by rw [itemsText_cons_cons, hcs, List.cons_append]⟩

theorem exists_head_membersText (member : String × Json) (members : List (String × Json)) :
    ∃ cs, membersText (member :: members) = '"' :: cs := by
  obtain ⟨key, value⟩ := member
  cases members with
  | nil => exact ⟨_, membersText_singleton key value⟩
  | cons next members => exact ⟨_, membersText_cons_cons key value next members⟩

/-- With this much fuel, and no less than twice the length of the text, a printed tree reads as the
tree, whatever follows it. -/
def ReadsBack (fuel : Nat) : Prop :=
  ∀ j : Json, j.IsPlain → ∀ rest, 2 * j.print.toList.length ≤ fuel →
    readValue fuel (j.print.toList ++ rest) = (j, some rest)

/-- Printed items read as the items, up to the end of the array, if each of them does. -/
theorem readItems_print {bound : Nat} (h : ∀ fuel < bound, ReadsBack fuel) (item : Json)
    (items : List Json) (hitem : item.IsPlain) (hitems : AllPlain items) (rest : List Char)
    {fuel : Nat} (hbound : fuel ≤ bound)
    (hfuel : 2 * (itemsText (item :: items)).length + 1 ≤ fuel) :
    readItems fuel (itemsText (item :: items) ++ ']' :: rest) = (item :: items, some rest) := by
  induction items generalizing item fuel with
  | nil =>
    obtain ⟨fuel, rfl⟩ := Nat.exists_eq_add_one_of_ne_zero (Nat.ne_zero_of_lt hfuel)
    rw [itemsText_singleton] at hfuel ⊢
    exact readItems_last (h fuel hbound item hitem _ (by omega))
  | cons next items ih =>
    obtain ⟨fuel, rfl⟩ := Nat.exists_eq_add_one_of_ne_zero (Nat.ne_zero_of_lt hfuel)
    obtain ⟨c, hc, cs, hcs⟩ := exists_head_itemsText hitems.1 items
    rw [itemsText_cons_cons, List.length_append, List.length_cons] at hfuel
    have hread := h fuel hbound item hitem (',' :: itemsText (next :: items) ++ ']' :: rest)
      (by omega)
    have hmore := ih next hitems.1 hitems.2 (Nat.le_of_lt hbound) (by omega)
    rw [itemsText_cons_cons, List.append_assoc]
    rw [hcs, List.cons_append, List.cons_append] at hread
    rw [hcs, List.cons_append] at hmore
    rw [hcs, List.cons_append, List.cons_append, readItems_more hc hread, hmore]

/-- Printed members read as the members, up to the end of the object, if each of them does. -/
theorem readMembers_print {bound : Nat} (h : ∀ fuel < bound, ReadsBack fuel)
    (member : String × Json) (members : List (String × Json))
    (hmembers : MembersPlain (member :: members)) (rest : List Char) {fuel : Nat}
    (hbound : fuel ≤ bound) (hfuel : 2 * (membersText (member :: members)).length + 1 ≤ fuel) :
    readMembers fuel (membersText (member :: members) ++ '\x7d' :: rest) =
      ((member :: members).map fun member => (some member.1, member.2), some rest) := by
  induction members generalizing member fuel with
  | nil =>
    obtain ⟨fuel, rfl⟩ := Nat.exists_eq_add_one_of_ne_zero (Nat.ne_zero_of_lt hfuel)
    obtain ⟨key, value⟩ := member
    rw [membersText_singleton] at hfuel ⊢
    simp only [List.length_cons, List.length_append] at hfuel
    simp only [List.cons_append, List.append_assoc]
    exact readMembers_last (h fuel hbound value hmembers.1 _ (by omega))
  | cons next members ih =>
    obtain ⟨fuel, rfl⟩ := Nat.exists_eq_add_one_of_ne_zero (Nat.ne_zero_of_lt hfuel)
    obtain ⟨key, value⟩ := member
    rw [membersText_cons_cons] at hfuel ⊢
    simp only [List.length_cons, List.length_append] at hfuel
    simp only [List.cons_append, List.append_assoc]
    rw [readMembers_more (h fuel hbound value hmembers.1 _ (by omega)),
      ih next hmembers.2 (Nat.le_of_lt hbound) (by omega)]
    rfl

theorem readsBack (fuel : Nat) : ReadsBack fuel := by
  induction fuel using Nat.strongRecOn with
  | _ fuel ih =>
    intro j h rest hfuel
    obtain ⟨c, -, cs, hcs⟩ := exists_head_print h
    obtain ⟨fuel, rfl⟩ : ∃ n, fuel = n + 1 := by
      rw [hcs, List.length_cons] at hfuel
      exact Nat.exists_eq_add_one_of_ne_zero (by omega)
    have hless : ∀ n < fuel, ReadsBack n := fun n hn => ih n (Nat.lt_succ_of_lt hn)
    cases j with
    | null => exact (readValue_word fuel rest).1
    | bool value =>
      cases value with
      | true => exact (readValue_word fuel rest).2.1
      | false => exact (readValue_word fuel rest).2.2
    | string text =>
      rw [print, toList_printString, List.cons_append, List.append_assoc, List.singleton_append]
      exact readValue_string fuel text rest
    | array items closed =>
      obtain ⟨rfl, hitems⟩ := h
      rw [toList_print_array] at hfuel ⊢
      rw [List.length_cons, List.length_append] at hfuel
      rw [List.cons_append, List.append_assoc, List.singleton_append]
      cases items with
      | nil => exact (readValue_empty fuel rest).1
      | cons item items =>
        obtain ⟨c, hc, cs, hcs⟩ := exists_head_itemsText hitems.1 items
        have hread := readItems_print hless item items hitems.1 hitems.2 rest (Nat.le_refl fuel)
          (by omega)
        rw [hcs, List.cons_append] at hread ⊢
        rw [readValue_array fuel hc, hread]
        rfl
    | object members ending =>
      obtain ⟨rfl, hmembers⟩ := h
      rw [toList_print_object] at hfuel ⊢
      rw [List.length_cons, List.length_append] at hfuel
      rw [List.cons_append, List.append_assoc, List.singleton_append]
      cases members with
      | nil => exact (readValue_empty fuel rest).2
      | cons member members =>
        obtain ⟨cs, hcs⟩ := exists_head_membersText member members
        have hread := readMembers_print hless member members hmembers rest (Nat.le_refl fuel)
          (by omega)
        rw [hcs, List.cons_append] at hread ⊢
        rw [readValue_object fuel, hread]
        exact congrArg (·, some rest) (objectOf_map_some (member :: members))
    | number | unkeyed | garbled | broken => exact h.elim

/-- A printed tree reads as the tree, whatever follows it. -/
theorem readValue_print {j : Json} (h : j.IsPlain) (rest : List Char) {fuel : Nat}
    (hfuel : 2 * j.print.toList.length ≤ fuel) :
    readValue fuel (j.print.toList ++ rest) = (j, some rest) :=
  readsBack fuel j h rest hfuel

/-- The text of a tree is a document of the tree. -/
theorem Document.ofText_print {j : Json} (h : j.IsPlain) : ofText j.print = ⟨j, true⟩ := by
  have hread := readValue_print h [] (Nat.le_add_right _ 2)
  rw [List.append_nil] at hread
  rw [ofText, hread]
  rfl

end ItemMapper.Json
