import ItemMapper.Proofs.Aliases.Growth
import ItemMapper.Proofs.Condition.Reading
import ItemMapper.Proofs.Expression.Names
import ItemMapper.Proofs.Expression.Template
import ItemMapper.Proofs.Number.Decimal

/-!
# The tokens of texts

Texts of conditions are put together from pieces with blanks and marks between them, and their tokens
are then those of the pieces: a lexeme never reaches over a blank or a mark. The pieces are
keywords, operators, placeholders, names that need no placeholder, and positions.

## Main definitions

* `Spells`: a text with some tokens, now and with any more placeholders.

## Main statements

* `Lexer.lexemes_append`: a text falls apart at a blank or a mark.
* `Keyword.ofWord?_of_needsAlias`: a name that needs no placeholder is no keyword.
* `Spells.blank`, `Spells.mark`: putting texts together.
-/

namespace ItemMapper

/-! ### Lexemes -/

namespace Lexer

/-- A character that ends the lexeme in front of it. -/
def isBreak (c : Char) : Bool := sortOf c == .blank || sortOf c == .mark

theorem goesOn_of_isBreak {c d : Char} (hd : isBreak d = true)
    (hc : sortOf c = .word ∨ sortOf c = .operator) (rest : List Char) :
    goesOn c (d :: rest) = false := by
  rw [isBreak, Bool.or_eq_true, beq_iff_eq, beq_iff_eq] at hd
  rw [goesOn]
  rcases hc with hc | hc <;> rcases hd with hd | hd <;> rw [hc, hd] <;> rfl

theorem lexemes_ne_nil_of_goesOn {c : Char} {rest : List Char} (h : goesOn c rest = true)
    (hc : sortOf c = .word ∨ sortOf c = .operator) : lexemes rest ≠ [] := by
  cases rest with
  | nil => cases h
  | cons d rest =>
    rw [goesOn, beq_iff_eq] at h
    rw [lexemes, h]
    rcases hc with hc | hc <;>
    · rw [hc]
      simp only
      split
      · cases lexemes rest with
        | nil => exact nofun
        | cons lexeme others => exact nofun
      · exact nofun

theorem prepend_append {c : Char} {lexemes : List (List Char)} (h : lexemes ≠ [])
    (others : List (List Char)) : prepend c (lexemes ++ others) = prepend c lexemes ++ others := by
  cases lexemes with
  | nil => exact absurd rfl h
  | cons lexeme rest => rfl

/-- **A text falls apart at a blank or a mark.** -/
theorem lexemes_append {d : Char} (hd : isBreak d = true) (text rest : List Char) :
    lexemes (text ++ d :: rest) = lexemes text ++ lexemes (d :: rest) := by
  induction text with
  | nil => rfl
  | cons c text ih =>
    have hstep : ∀ hc : sortOf c = .word ∨ sortOf c = .operator,
        (if goesOn c (text ++ d :: rest) then prepend c (lexemes (text ++ d :: rest))
          else [c] :: lexemes (text ++ d :: rest)) =
        (if goesOn c text then prepend c (lexemes text) else [c] :: lexemes text) ++
          lexemes (d :: rest) := by
      intro hc
      cases text with
      | nil =>
        rw [List.nil_append, goesOn_of_isBreak hd hc]
        rfl
      | cons next text =>
        have hsame : goesOn c (next :: text ++ d :: rest) = goesOn c (next :: text) := rfl
        rw [hsame, ih]
        by_cases hgoes : goesOn c (next :: text) = true
        · rw [if_pos hgoes, if_pos hgoes]
          exact prepend_append (lexemes_ne_nil_of_goesOn hgoes hc) _
        · rw [if_neg hgoes, if_neg hgoes]
          rfl
    rw [List.cons_append, lexemes, lexemes]
    cases hc : sortOf c with
    | word => exact hstep (.inl hc)
    | operator => exact hstep (.inr hc)
    | blank => exact ih
    | mark => exact congrArg ([c] :: ·) ih

/-- A run of characters of one sort is one lexeme. -/
theorem lexemes_of_all {sort : CharSort} (hsort : sort = .word ∨ sort = .operator) {c : Char}
    {text : List Char} (h : (c :: text).all (sortOf · == sort) = true) :
    lexemes (c :: text) = [c :: text] := by
  induction text generalizing c with
  | nil =>
    rw [List.all_cons, Bool.and_eq_true, beq_iff_eq] at h
    rw [lexemes, h.1]
    rcases hsort with rfl | rfl <;> rfl
  | cons d text ih =>
    rw [List.all_cons, Bool.and_eq_true, beq_iff_eq] at h
    obtain ⟨hc, hrest⟩ := h
    have hd : sortOf d = sort := by
      rw [List.all_cons, Bool.and_eq_true, beq_iff_eq] at hrest
      exact hrest.1
    rw [lexemes, ih hrest, goesOn, hc, hd]
    rcases hsort with rfl | rfl <;> rfl

theorem sortOf_of_isNameChar {c : Char} (h : isNameChar c = true) : sortOf c = .word := by
  rw [isNameChar, Bool.or_eq_true] at h
  rw [sortOf, if_pos]
  rcases h with h | h
  · rw [h]
    rfl
  · rw [h, Bool.or_true]
    rfl

theorem tokens?_append {names : Fields String} {values : Fields AttributeValue} {d : Char}
    (hd : isBreak d = true) {text rest : List Char} {tokens others : List Token}
    (htext : tokens? names values text = some tokens)
    (hrest : tokens? names values (d :: rest) = some others) :
    tokens? names values (text ++ d :: rest) = some (tokens ++ others) := by
  rw [tokens?] at htext hrest ⊢
  rw [lexemes_append hd, List.mapM_append, htext, hrest]
  rfl

end Lexer

/-! ### Words -/

/-- A keyword is not a name: it is a reserved word. -/
theorem Keyword.text_mem_reservedWords (keyword : Keyword) : keyword.text ∈ reservedWords := by
  cases keyword <;> decide

theorem Keyword.map_toUpper_text (keyword : Keyword) :
    keyword.text.map Char.toUpper = keyword.text := by
  rw [← String.toList_inj, String.toList_map]
  cases keyword <;> rfl

/-- **A name that needs no placeholder is no keyword.** -/
theorem Keyword.ofWord?_of_needsAlias {word : String} (h : needsAlias word = false) :
    Keyword.ofWord? word = none := by
  refine List.find?_eq_none.mpr fun keyword _ => ?_
  rw [sameIgnoringCase_of_needsAlias h keyword.text_mem_reservedWords keyword.map_toUpper_text]
  exact Bool.false_ne_true

/-- The digits of a number are no keyword. -/
theorem Keyword.ofWord?_of_isDigit {word : String} {c : Char} {rest : List Char}
    (hword : word.toList = c :: rest) (hc : c.isDigit = true) : Keyword.ofWord? word = none := by
  cases hfind : Keyword.ofWord? word with
  | none => rfl
  | some keyword =>
    have hsame : sameIgnoringCase keyword.text word = true := by
      simpa using List.find?_some hfind
    have hlist := congrArg String.toList (map_toUpper_of_sameIgnoringCase hsame)
    rw [keyword.map_toUpper_text] at hlist
    rw [String.toList_map, hword, List.map_cons] at hlist
    have hupper : c.toUpper = c := Char.toUpper_eq_of_not_isLower fun hlower => by
      simp only [Char.isDigit, Char.isLower, Bool.and_eq_true, decide_eq_true_eq] at hc hlower
      exact absurd (UInt32.le_trans hlower.1 hc.2) (by decide)
    rw [hupper] at hlist
    cases keyword <;>
    · obtain ⟨rfl, -⟩ := List.cons.inj hlist
      cases hc

/-! ### Texts and their tokens -/

open Lexer Condition

/-- A text has some tokens, by the tables and by all that come of them. -/
def Spells (a : Aliases) (text : List Char) (tokens : List Token) : Prop :=
  ∀ b : Aliases, a.Extends b → tokens? b.names b.values text = some tokens

namespace Spells

variable {a b : Aliases} {text rest : List Char} {tokens others : List Token}

theorem mono (h : Spells a text tokens) (hab : a.Extends b) : Spells b text tokens :=
  fun c hbc => h c (hab.trans hbc)

theorem nil (a : Aliases) : Spells a [] [] := fun _ _ => rfl

/-- A mark in front of a text. -/
theorem ofMark (mark : Mark) (h : Spells a rest others) :
    Spells a (mark.char :: rest) (.mark mark :: others) := by
  intro b hab
  have hrest := h b hab
  rw [tokens?] at hrest ⊢
  have hsort : sortOf mark.char = .mark := by cases mark <;> rfl
  have htoken : token? b.names b.values [mark.char] = some (.mark mark) := by cases mark <;> rfl
  rw [lexemes, hsort]
  simp only [List.mapM_cons, htoken, hrest]
  rfl

/-- A blank in front of a text. -/
theorem ofBlank (h : Spells a rest others) : Spells a (' ' :: rest) others := by
  intro b hab
  have hsort : sortOf ' ' = .blank := by decide
  rw [tokens?, lexemes, hsort]
  exact h b hab

/-- **Two texts with a mark between them.** -/
theorem mark (htext : Spells a text tokens) (mark : Mark) (hrest : Spells a rest others) :
    Spells a (text ++ mark.char :: rest) (tokens ++ .mark mark :: others) := by
  intro b hab
  exact tokens?_append (by cases mark <;> decide) (htext b hab) (hrest.ofMark mark b hab)

/-- **Two texts with a blank between them.** -/
theorem blank (htext : Spells a text tokens) (hrest : Spells a rest others) :
    Spells a (text ++ ' ' :: rest) (tokens ++ others) := by
  intro b hab
  exact tokens?_append (by decide) (htext b hab) (hrest.ofBlank b hab)

/-- A lexeme that is a token. -/
theorem ofLexeme {sort : CharSort} (hsort : sort = .word ∨ sort = .operator) {c : Char}
    {cs : List Char} (hall : (c :: cs).all (sortOf · == sort) = true) {token : Token}
    (htoken : ∀ b : Aliases, a.Extends b → token? b.names b.values (c :: cs) = some token) :
    Spells a (c :: cs) [token] := by
  intro b hab
  rw [tokens?, lexemes_of_all hsort hall, List.mapM_cons, htoken b hab]
  rfl

theorem operator (a : Aliases) {op : BinaryOp} (h : op.isComparison = true) :
    Spells a op.symbol.toList [.operator op] := by
  have htoken : ∀ names values,
      token? names values op.symbol.toList = some (.operator op) := by
    intro names values
    cases op <;> first | rfl | cases h
  have hall : op.symbol.toList.all (sortOf · == .operator) = true := by
    cases op <;> first | decide | cases h
  obtain ⟨c, cs, htext⟩ : ∃ c cs, op.symbol.toList = c :: cs := by
    cases op <;> exact ⟨_, _, rfl⟩
  rw [htext] at htoken hall ⊢
  exact ofLexeme (.inr rfl) hall fun b _ => htoken b.names b.values

theorem all_word_of_all_isNameChar {cs : List Char} (h : cs.all isNameChar = true) :
    cs.all (sortOf · == .word) = true := by
  rw [List.all_eq_true] at h ⊢
  intro c hc
  rw [sortOf_of_isNameChar (h c hc)]
  rfl

/-- A word of name characters. -/
theorem ofWord (a : Aliases) {word : String} (hne : word.toList ≠ [])
    (hall : word.toList.all isNameChar = true) : Spells a word.toList [wordToken word] := by
  obtain ⟨c, cs, hword⟩ := List.exists_cons_of_ne_nil hne
  rw [hword] at hall ⊢
  refine ofLexeme (.inl rfl) (all_word_of_all_isNameChar hall) fun b _ => ?_
  have hc : isNameChar c = true := by
    rw [List.all_cons, Bool.and_eq_true] at hall
    exact hall.1
  have hname : c ≠ '#' := by
    rintro rfl
    exact absurd hc (by decide)
  have hvalue : c ≠ ':' := by
    rintro rfl
    exact absurd hc (by decide)
  rw [token?, if_neg hname, if_neg hvalue, sortOf_of_isNameChar hc, ← hword, String.ofList_toList]

/-- A word of name characters that is no keyword. -/
theorem word (a : Aliases) {word : String} (hne : word.toList ≠ [])
    (hall : word.toList.all isNameChar = true) (hkeyword : Keyword.ofWord? word = none) :
    Spells a word.toList [.word word] := by
  have hspells := ofWord a hne hall
  rwa [wordToken, hkeyword] at hspells

theorem keyword (a : Aliases) (keyword : Keyword) :
    Spells a keyword.text.toList [.keyword keyword] := by
  have hall : ∀ keyword ∈ Keyword.all, wordToken keyword.text = .keyword keyword := by
    decide +kernel
  have htoken := hall keyword (by cases keyword <;> decide)
  rw [← htoken]
  cases keyword <;> exact ofWord a nofun (by decide)

/-- The name of a function. -/
theorem functionName (a : Aliases) (function : StoreFunction) (h : function.isNamed = true) :
    Spells a function.name.toList [.word function.name] := by
  cases function with
  | between | isIn | set | remove | add | delete => cases h
  | _ => exact word a nofun (by decide) (by decide +kernel)

/-- A placeholder that stands for a name. -/
theorem name {placeholder name : String} (hnames : a.names.get? placeholder = some name)
    (hmark : Aliases.isPlaceholder '#' placeholder = true) :
    Spells a placeholder.toList [.name name] := by
  obtain ⟨cs, htext, hall⟩ := Aliases.exists_cons_of_isPlaceholder hmark
  rw [htext]
  refine ofLexeme (.inl rfl) ?_ fun b hab => ?_
  · rw [List.all_cons, all_word_of_all_isNameChar hall]
    decide
  · rw [token?, if_pos rfl, ← htext, String.ofList_toList, hab.names hnames]
    rfl

/-- A placeholder that stands for a value. -/
theorem value {placeholder : String} {value : AttributeValue}
    (hvalues : a.values.get? placeholder = some value)
    (hmark : Aliases.isPlaceholder ':' placeholder = true) :
    Spells a placeholder.toList [.value value] := by
  obtain ⟨cs, htext, hall⟩ := Aliases.exists_cons_of_isPlaceholder hmark
  rw [htext]
  refine ofLexeme (.inl rfl) ?_ fun b hab => ?_
  · rw [List.all_cons, all_word_of_all_isNameChar hall]
    decide
  · rw [token?, if_neg (by decide), if_pos rfl, ← htext, String.ofList_toList, hab.values hvalues]
    rfl

/-- A number. -/
theorem digits (a : Aliases) (n : Nat) : Spells a (toString n).toList [.word (toString n)] := by
  have htext : (toString n).toList = Nat.toDigits 10 n := by
    rw [Nat.toString_eq_repr, Nat.toList_repr]
  obtain ⟨c, cs, hdigits⟩ := List.exists_cons_of_ne_nil (toDigits_ne_nil n)
  have hc : c.isDigit = true := Nat.isDigit_of_mem_toDigits (b := 10) (n := n) (by decide)
    (by decide) (hdigits ▸ List.mem_cons_self)
  refine word a ?_ ?_ (Keyword.ofWord?_of_isDigit (htext.trans hdigits) hc)
  · rw [htext]
    exact toDigits_ne_nil n
  · rw [htext]
    exact Aliases.all_isNameChar_toDigits n

end Spells

end ItemMapper
