import ItemMapper.Error
import ItemMapper.Proofs.Number.Decimal
import ItemMapper.Proofs.Time.Uuid

/-!
# Texts of paths

The text of a path is the texts of its steps one behind the other, with nothing between them. Paths
can be told from their texts all the same, whatever the names on the way are. A plain name ends before
the first character that may not stand in it, and what follows it begins with a dot or a bracket. A
name in quotes ends at the first quote that is not escaped, since no escape begins as another one does.
And a position is made of digits, which no quote is.

## Main definitions

* `Separable`: codes that can be told apart in a row, without anything between them.
* `Escape`: the ways to write a character between quotes.
* `StepText`: the ways to write a step.

## Main statements

* `Separable.flatMap_append_inj`: a row of such codes is the row of one list only.
* `separable_escapeChar`, `separable_text`: escapes and texts of steps are such codes.
* `renderPath_inj`: **paths with the same text are equal**.
-/

namespace ItemMapper

/-! ### Codes in a row -/

/-- What may stand behind a code in a row: a further code, or what ends the row. -/
inductive Follows {α β : Type} (code : α → List β) (Ends : List β → Prop) : List β → Prop
  | code (a : α) (rest : List β) : Follows code Ends (code a ++ rest)
  | ending {rest : List β} : Ends rest → Follows code Ends rest

/-- Codes that can be told apart in a row: the first code is told from all of the row, and no code
looks like the end of one. -/
structure Separable {α β : Type} (code : α → List β) (Ends : List β → Prop) : Prop where
  append_inj : ∀ {a b : α} {r s : List β}, Follows code Ends r → Follows code Ends s →
    code a ++ r = code b ++ s → a = b ∧ r = s
  not_ends : ∀ (a : α) (rest : List β), ¬ Ends (code a ++ rest)

section
variable {α β : Type} {code : α → List β} {Ends : List β → Prop}

theorem follows_flatMap {r : List β} (hr : Ends r) (xs : List α) :
    Follows code Ends (xs.flatMap code ++ r) := by
  cases xs with
  | nil => exact .ending hr
  | cons x xs =>
    rw [List.flatMap_cons, List.append_assoc]
    exact .code x _

/-- **A row of codes is the row of one list only**, and what ends it is told as well. -/
theorem Separable.flatMap_append_inj (h : Separable code Ends) {xs ys : List α} {r s : List β}
    (hr : Ends r) (hs : Ends s) (heq : xs.flatMap code ++ r = ys.flatMap code ++ s) :
    xs = ys ∧ r = s := by
  induction xs generalizing ys with
  | nil =>
    cases ys with
    | nil => exact ⟨rfl, heq⟩
    | cons y ys =>
      rw [List.flatMap_nil, List.nil_append, List.flatMap_cons, List.append_assoc] at heq
      exact absurd (heq ▸ hr) (h.not_ends y _)
  | cons x xs ih =>
    rw [List.flatMap_cons, List.append_assoc] at heq
    cases ys with
    | nil =>
      rw [List.flatMap_nil, List.nil_append] at heq
      exact absurd (heq ▸ hs) (h.not_ends x _)
    | cons y ys =>
      rw [List.flatMap_cons, List.append_assoc] at heq
      obtain ⟨rfl, hrest⟩ := h.append_inj (follows_flatMap hr xs) (follows_flatMap hs ys) heq
      obtain ⟨rfl, hends⟩ := ih hrest
      exact ⟨rfl, hends⟩

end

/-! ### Runs of characters -/

/-- A run of characters of one kind ends where a character of another kind stands. -/
theorem append_inj_of_all {p : Char → Bool} {xs ys r s : List Char} (hxs : xs.all p = true)
    (hys : ys.all p = true) (hr : r.takeWhile p = []) (hs : s.takeWhile p = [])
    (h : xs ++ r = ys ++ s) : xs = ys ∧ r = s := by
  have htaken := congrArg (List.takeWhile p) h
  rw [List.takeWhile_append_of_pos (List.all_eq_true.mp hxs),
    List.takeWhile_append_of_pos (List.all_eq_true.mp hys), hr, hs, List.append_nil,
    List.append_nil] at htaken
  subst htaken
  exact ⟨rfl, List.append_cancel_left h⟩

/-! ### Escapes -/

/-- The character that a character behind a backslash stands for. -/
def unescape : Char → Char
  | 'n' => '\n'
  | 'r' => '\r'
  | 't' => '\t'
  | '0' => '\x00'
  | c => c

/-- The ways to write a character between quotes: as it is, behind a backslash by a character that
stands for it, or by its number. -/
inductive Escape : Char → List Char → Prop
  | plain {c : Char} : c ≠ '\\' → c ≠ '"' → Escape c [c]
  | letter {c : Char} : c ≠ 'u' → Escape (unescape c) ['\\', c]
  | number (c : Char) : Escape c ('\\' :: 'u' :: '\x7b' :: (hexadecimal c.toNat ++ ['\x7d']))

theorem escape_escapeChar (c : Char) : Escape c (escapeChar c) := by
  unfold escapeChar
  split_ifs with hquote hbackslash hline hreturn htab hnul hprintable
  · subst hquote
    exact .letter (c := '"') (by decide)
  · subst hbackslash
    exact .letter (c := '\\') (by decide)
  · subst hline
    exact .letter (c := 'n') (by decide)
  · subst hreturn
    exact .letter (c := 'r') (by decide)
  · subst htab
    exact .letter (c := 't') (by decide)
  · subst hnul
    exact .letter (c := '0') (by decide)
  · exact .plain hbackslash hquote
  · exact .number c

theorem hexadecimal_injective : Function.Injective hexadecimal := by
  intro n m h
  have hread : ∀ k, Uuid.hexNumber? (hexadecimal k) = some k := Uuid.hexNumber?_toDigits 0
  exact Option.some.inj ((hread n).symm.trans (h ▸ hread m))

/-- No hexadecimal digit is the brace behind it. -/
theorem all_ne_brace_hexadecimal (n : Nat) : (hexadecimal n).all (· != '\x7d') = true := by
  have hdigit : ∀ d < 16, (Nat.digitChar d != '\x7d') = true := by decide
  rw [hexadecimal]
  induction n using Nat.strongRecOn with
  | ind n ih =>
    rw [Nat.toDigits_eq_if (by decide)]
    split
    · rename_i hsmall
      rw [List.all_cons, hdigit n hsmall, List.all_nil, Bool.and_true]
    · rename_i hlarge
      rw [List.all_append, ih (n / 16) (Nat.div_lt_self (by omega) (by decide)), List.all_cons,
        hdigit (n % 16) (Nat.mod_lt n (by decide)), List.all_nil, Bool.and_true, Bool.and_true]

/-- An escape is told from what stands behind it, and with it the character. -/
theorem Escape.append_inj {c d : Char} {xs ys r s : List Char} (hx : Escape c xs)
    (hy : Escape d ys) (h : xs ++ r = ys ++ s) : c = d ∧ r = s := by
  cases hx with
  | plain hc _ =>
    cases hy with
    | plain _ _ => exact List.cons.inj h
    | letter _ => exact absurd (List.cons.inj h).1 hc
    | number _ => exact absurd (List.cons.inj h).1 hc
  | @letter x hx =>
    cases hy with
    | plain hd _ => exact absurd (List.cons.inj h).1.symm hd
    | letter _ =>
      obtain ⟨rfl, hrest⟩ := List.cons.inj (List.cons.inj h).2
      exact ⟨rfl, hrest⟩
    | number _ => exact absurd (List.cons.inj (List.cons.inj h).2).1 hx
  | number c =>
    cases hy with
    | plain hd _ => exact absurd (List.cons.inj h).1.symm hd
    | letter hy => exact absurd (List.cons.inj (List.cons.inj h).2).1.symm hy
    | number d =>
      have hdigits : hexadecimal c.toNat ++ '\x7d' :: r = hexadecimal d.toNat ++ '\x7d' :: s := by
        simpa using h
      obtain ⟨hnumber, hrest⟩ := append_inj_of_all (all_ne_brace_hexadecimal c.toNat)
        (all_ne_brace_hexadecimal d.toNat) rfl rfl hdigits
      exact ⟨Char.toNat_inj.mp (hexadecimal_injective hnumber), (List.cons.inj hrest).2⟩

theorem Escape.ne_quote {c : Char} {xs rest : List Char} (h : Escape c xs) (r : List Char) :
    xs ++ r ≠ '"' :: rest := by
  cases h with
  | plain _ hc => exact fun heq => hc (List.cons.inj heq).1
  | letter _ => exact fun heq => absurd (List.cons.inj heq).1 (by decide)
  | number _ => exact fun heq => absurd (List.cons.inj heq).1 (by decide)

/-- Escaped characters can be told apart in a row that a quote ends. -/
theorem separable_escapeChar : Separable escapeChar (fun rest => ∃ r, rest = '"' :: r) where
  append_inj _ _ h := (escape_escapeChar _).append_inj (escape_escapeChar _) h
  not_ends c rest := fun ⟨_, h⟩ => (escape_escapeChar c).ne_quote rest h

/-- A quoted text ends at its own quote, and the text is told. -/
theorem quoted_append_inj {x y : String} {r s : List Char}
    (h : (quoted x).toList ++ r = (quoted y).toList ++ s) : x = y ∧ r = s := by
  have hbodies : x.toList.flatMap escapeChar ++ '"' :: r =
      y.toList.flatMap escapeChar ++ '"' :: s := by
    simpa [quoted] using h
  obtain ⟨htext, hrest⟩ := separable_escapeChar.flatMap_append_inj ⟨r, rfl⟩ ⟨s, rfl⟩ hbodies
  exact ⟨String.toList_inj.mp htext, (List.cons.inj hrest).2⟩

/-! ### Steps -/

theorem all_isNameChar_of_isPlainName {name : String} (h : isPlainName name = true) :
    name.toList.all isNameChar = true := by
  unfold isPlainName at h
  split at h
  · cases h
  · rename_i c rest hname
    obtain ⟨hfirst, hrest⟩ := Bool.and_eq_true_iff.mp h
    rw [hname, List.all_cons, hrest, Bool.and_true, isNameChar]
    rcases Bool.or_eq_true_iff.mp hfirst with halpha | hunderscore
    · rw [Char.isAlphanum, halpha, Bool.true_or, Bool.true_or]
    · rw [hunderscore, Bool.or_true]

theorem all_isDigit_toDigits (n : Nat) : (Nat.toDigits 10 n).all isDigit = true :=
  List.all_eq_true.mpr fun _ => isDigit_of_mem_toDigits

/-- The ways to write a step: a name behind a dot or quoted between brackets, and a position between
brackets. -/
inductive StepText : PathSegment → List Char → Prop
  | plain {name : String} : name.toList.all isNameChar = true →
      StepText (.field name) ('.' :: name.toList)
  | quoted (name : String) : StepText (.field name) ('[' :: ((quoted name).toList ++ [']']))
  | index (position : Nat) :
      StepText (.index position) ('[' :: (Nat.toDigits 10 position ++ [']']))

theorem stepText_text (segment : PathSegment) : StepText segment segment.text.toList := by
  cases segment with
  | field name =>
    by_cases hplain : isPlainName name = true
    · have htext : (PathSegment.field name).text.toList = '.' :: name.toList := by
        simp [PathSegment.text, hplain]
      exact htext ▸ .plain (all_isNameChar_of_isPlainName hplain)
    · have htext : (PathSegment.field name).text.toList =
          '[' :: ((quoted name).toList ++ [']']) := by
        simp [PathSegment.text, hplain]
      exact htext ▸ .quoted name
  | index position =>
    have htext : (PathSegment.index position).text.toList =
        '[' :: (Nat.toDigits 10 position ++ [']']) := by
      rw [PathSegment.text, String.toList_append, String.toList_append, Nat.toString_eq_repr,
        Nat.toList_repr]
      rfl
    exact htext ▸ .index position

namespace StepText

variable {a b : PathSegment} {xs ys r s : List Char}

theorem ne_nil (h : StepText a xs) : xs ≠ [] := by
  cases h <;> exact List.cons_ne_nil _ _

/-- A step begins with a character that ends a plain name. -/
theorem takeWhile_isNameChar (h : StepText a xs) (r : List Char) :
    (xs ++ r).takeWhile isNameChar = [] := by
  cases h <;> rfl

theorem quoted_ne_toDigits (name : String) (position : Nat) :
    (ItemMapper.quoted name).toList ++ r ≠ Nat.toDigits 10 position ++ s := by
  intro h
  rw [ItemMapper.quoted, String.toList_ofList] at h
  cases hposition : Nat.toDigits 10 position with
  | nil => exact Nat.toDigits_ne_nil hposition
  | cons c rest =>
    rw [hposition] at h
    obtain rfl : '"' = c := (List.cons.inj h).1
    exact toDigits_ne_sign rfl rest hposition

/-- A step is told from its text and what stands behind it, if this begins with no character that
may stand in a plain name. -/
theorem append_inj (hx : StepText a xs) (hy : StepText b ys) (hr : r.takeWhile isNameChar = [])
    (hs : s.takeWhile isNameChar = []) (h : xs ++ r = ys ++ s) : a = b ∧ r = s := by
  cases hx with
  | plain hname =>
    cases hy with
    | plain hname' =>
      obtain ⟨htext, hrest⟩ := append_inj_of_all hname hname' hr hs (List.cons.inj h).2
      exact ⟨congrArg PathSegment.field (String.toList_inj.mp htext), hrest⟩
    | quoted _ => exact absurd (List.cons.inj h).1 (by decide)
    | index _ => exact absurd (List.cons.inj h).1 (by decide)
  | quoted name =>
    cases hy with
    | plain _ => exact absurd (List.cons.inj h).1 (by decide)
    | quoted name' =>
      have hquoted : (ItemMapper.quoted name).toList ++ ']' :: r =
          (ItemMapper.quoted name').toList ++ ']' :: s := by
        simpa using h
      obtain ⟨rfl, hrest⟩ := quoted_append_inj hquoted
      exact ⟨rfl, (List.cons.inj hrest).2⟩
    | index position =>
      exact absurd (by simpa using h) (quoted_ne_toDigits name position (r := ']' :: r))
  | index position =>
    cases hy with
    | plain _ => exact absurd (List.cons.inj h).1 (by decide)
    | quoted name =>
      exact absurd (by simpa using h.symm) (quoted_ne_toDigits name position (r := ']' :: s))
    | index position' =>
      have hdigits : Nat.toDigits 10 position ++ ']' :: r =
          Nat.toDigits 10 position' ++ ']' :: s := by
        simpa using h
      obtain ⟨hposition, hrest⟩ := append_inj_of_all (all_isDigit_toDigits position)
        (all_isDigit_toDigits position') rfl rfl hdigits
      have hvalue := congrArg (digitsValue 0) hposition
      rw [digitsValue_toDigits, digitsValue_toDigits] at hvalue
      exact ⟨congrArg PathSegment.index hvalue, (List.cons.inj hrest).2⟩

end StepText

/-- Wherever a step ends in the text of a path, a plain name would end as well. -/
theorem takeWhile_of_follows {r : List Char}
    (h : Follows (fun segment : PathSegment => segment.text.toList) (· = []) r) :
    r.takeWhile isNameChar = [] := by
  cases h with
  | code segment rest => exact (stepText_text segment).takeWhile_isNameChar rest
  | ending hnil => rw [hnil, List.takeWhile_nil]

/-- The steps of a path can be told apart in its text. -/
theorem separable_text :
    Separable (fun segment : PathSegment => segment.text.toList) (· = []) where
  append_inj hr hs h :=
    (stepText_text _).append_inj (stepText_text _) (takeWhile_of_follows hr)
      (takeWhile_of_follows hs) h
  not_ends segment _ h := (stepText_text segment).ne_nil (List.append_eq_nil_iff.mp h).1

theorem toList_renderPath (path : List PathSegment) :
    (renderPath path).toList = '$' :: path.flatMap fun segment => segment.text.toList := by
  rw [renderPath, String.toList_append, String.toList_join, List.flatMap_map]
  rfl

/-- **Paths with the same text are equal**, whatever names and positions they are made of. -/
theorem renderPath_inj (p q : List PathSegment) : renderPath p = renderPath q ↔ p = q := by
  refine ⟨fun h => ?_, fun h => h ▸ rfl⟩
  have htexts := congrArg String.toList h
  rw [toList_renderPath, toList_renderPath] at htexts
  refine (separable_text.flatMap_append_inj rfl rfl ?_).1
  rw [List.append_nil, List.append_nil]
  exact (List.cons.inj htexts).2

example : renderPath [.field "a", .index 0] = "$.a[0]" ∧
    renderPath [.field "a[0]"] = "$[\"a[0]\"]" ∧
    renderPath [.field "a", .field "0"] = "$.a[\"0\"]" := by
  decide

end ItemMapper
