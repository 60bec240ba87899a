import ItemMapper.Proofs.Condition.Grammar

/-!
# Reading what is spelled

The grammar, said the other way round: which lists of tokens spell a path, an operand, an atom, a
condition. Chains of one operator may be joined in any order here, and a value may stand for any value
that is the same up to the order inside sets. Whatever is spelled is read, all of it and as a
condition that is alike.

## Main definitions

* `SpelledPath`, `SpelledOperand`, `SpelledOperands`, `SpelledAtom`: the parts of conditions.
* `Rank`: how tightly a condition binds.
* `Spelled`: the conditions of a rank.

## Main statements

* `readsChain_join`: two chains of one operator are read as one.
* `Spelled.ofTokens?`: what is spelled is read.
-/

namespace ItemMapper

namespace Condition

/-- The tokens of a path. -/
inductive SpelledPath : List Token → List Step → Prop
  | name {token : Token} {name : String} : name? token = some name →
      SpelledPath [token] [.member name]
  | member {tokens : List Token} {steps : List Step} {token : Token} {name : String} :
      SpelledPath tokens steps → name? token = some name →
      SpelledPath (tokens ++ [.mark .dot, token]) (steps ++ [.member name])
  | element {tokens : List Token} {steps : List Step} {digits : String} {position : Nat} :
      SpelledPath tokens steps → readNat? digits = some position →
      SpelledPath (tokens ++ [.mark .openBracket, .word digits, .mark .closeBracket])
        (steps ++ [.element position])

/-- The tokens of an operand. -/
inductive SpelledOperand : List Token → Operand → Prop
  | path {tokens : List Token} {steps : List Step} : SpelledPath tokens steps →
      SpelledOperand tokens (.path steps)
  | size {tokens : List Token} {steps : List Step} : SpelledPath tokens steps →
      SpelledOperand
        (.word StoreFunction.size.name :: .mark .opening :: (tokens ++ [.mark .closing]))
        (.size steps)
  | value {v w : AttributeValue} : v.same w = true → SpelledOperand [.value v] (.value w)

/-- The tokens of operands with commas between them. -/
inductive SpelledOperands : List Token → List Operand → Prop
  | one {tokens : List Token} {operand : Operand} : SpelledOperand tokens operand →
      SpelledOperands tokens [operand]
  | more {tokens others : List Token} {operand : Operand} {operands : List Operand} :
      SpelledOperand tokens operand → SpelledOperands others operands →
      SpelledOperands (tokens ++ .mark .comma :: others) (operand :: operands)

/-- The tokens of an atom. -/
inductive SpelledAtom : List Token → Condition → Prop
  | comparison {l r : List Token} {left right : Operand} (op : BinaryOp) :
      SpelledOperand l left → SpelledOperand r right →
      SpelledAtom (l ++ .operator op :: r) (.comparison op left right)
  | between {x l h : List Token} {operand low high : Operand} :
      SpelledOperand x operand → SpelledOperand l low → SpelledOperand h high →
      SpelledAtom (x ++ .keyword .between :: (l ++ .keyword .and :: h))
        (.call .between [operand, low, high])
  | isIn {x tokens : List Token} {operand : Operand} {candidates : List Operand} :
      SpelledOperand x operand → SpelledOperands tokens candidates →
      SpelledAtom (x ++ .keyword .isIn :: .mark .opening :: (tokens ++ [.mark .closing]))
        (.call .isIn (operand :: candidates))
  | call {function : StoreFunction} {tokens : List Token} {args : List Operand} :
      function? function.name = some function → SpelledOperands tokens args →
      function.takes args.length = true →
      SpelledAtom (.word function.name :: .mark .opening :: (tokens ++ [.mark .closing]))
        (.call function args)

/-- How tightly a condition binds. -/
inductive Rank where
  /-- Atoms, negations and what stands between parentheses. -/
  | unit
  /-- What AND joins. -/
  | conjunction
  /-- What OR joins. -/
  | disjunction
deriving DecidableEq, Repr

/-- The tokens of a condition of some rank. -/
inductive Spelled : Rank → List Token → Condition → Prop
  | atom {tokens : List Token} {c : Condition} : SpelledAtom tokens c → Spelled .unit tokens c
  | not {tokens : List Token} {c : Condition} : Spelled .unit tokens c →
      Spelled .unit (.keyword .not :: tokens) (.not c)
  | group {tokens : List Token} {c : Condition} : Spelled .disjunction tokens c →
      Spelled .unit (.mark .opening :: (tokens ++ [.mark .closing])) c
  | ofUnit {tokens : List Token} {c : Condition} : Spelled .unit tokens c →
      Spelled .conjunction tokens c
  | and {l r : List Token} {c d : Condition} :
      Spelled .conjunction l c → Spelled .conjunction r d →
      Spelled .conjunction (l ++ .keyword .and :: r) (.join .and c d)
  | ofConjunction {tokens : List Token} {c : Condition} : Spelled .conjunction tokens c →
      Spelled .disjunction tokens c
  | or {l r : List Token} {c d : Condition} :
      Spelled .disjunction l c → Spelled .disjunction r d →
      Spelled .disjunction (l ++ .keyword .or :: r) (.join .or c d)

/-! ### Paths and operands -/

/-- Whether tokens do not go on with an argument list. -/
def endsWord : List Token → Bool
  | .mark .opening :: _ => false
  | _ => true

/-- Whether tokens do not go on with an operand that ends in front of them. -/
def endsOperand : List Token → Bool
  | .mark .opening :: _ | .mark .dot :: _ | .mark .openBracket :: _ => false
  | _ => true

theorem readSteps_of_endsOperand {rest : List Token} (h : endsOperand rest = true) :
    readSteps rest = ([], rest) := by
  unfold readSteps
  split
  · cases h
  · cases h
  · rfl

theorem endsWord_of_endsOperand {rest : List Token} (h : endsOperand rest = true) :
    endsWord rest = true := by
  unfold endsWord
  split
  · cases h
  · rfl

theorem readSteps_member {token : Token} {name : String} (h : name? token = some name)
    (rest : List Token) :
    readSteps (.mark .dot :: token :: rest) =
      (.member name :: (readSteps rest).1, (readSteps rest).2) := by
  rw [readSteps, h]

theorem readSteps_element {digits : String} {position : Nat} (h : readNat? digits = some position)
    (rest : List Token) :
    readSteps (.mark .openBracket :: .word digits :: .mark .closeBracket :: rest) =
      (.element position :: (readSteps rest).1, (readSteps rest).2) := by
  rw [readSteps, h]

/-- A path is read, and then whatever steps go on from it. -/
theorem SpelledPath.readPath_append {tokens : List Token} {steps : List Step}
    (h : SpelledPath tokens steps) (rest : List Token) :
    readPath (tokens ++ rest) = some (steps ++ (readSteps rest).1, (readSteps rest).2) := by
  induction h generalizing rest with
  | name hname =>
    rw [List.singleton_append, readPath, hname]
    rfl
  | member _ hname ih =>
    rw [List.append_assoc, ih]
    simp only [List.cons_append, List.nil_append, readSteps_member hname, List.append_assoc]
  | element _ hdigits ih =>
    rw [List.append_assoc, ih]
    simp only [List.cons_append, List.nil_append, readSteps_element hdigits, List.append_assoc]

theorem SpelledPath.readPath {tokens : List Token} {steps : List Step}
    (h : SpelledPath tokens steps) {rest : List Token} (hrest : endsOperand rest = true) :
    readPath (tokens ++ rest) = some (steps, rest) := by
  rw [h.readPath_append, readSteps_of_endsOperand hrest, List.append_nil]

theorem endsWord_append {more rest : List Token} (hmore : endsWord more = true)
    (hrest : endsWord rest = true) : endsWord (more ++ rest) = true := by
  cases more with
  | nil => exact hrest
  | cons token more =>
    unfold endsWord at hmore ⊢
    split
    · rename_i heq
      cases heq
      exact hmore
    · rfl

/-- A path begins with a name, and an argument list does not follow the name. -/
theorem SpelledPath.exists_cons {tokens : List Token} {steps : List Step}
    (h : SpelledPath tokens steps) :
    ∃ token more, tokens = token :: more ∧ (name? token).isSome = true ∧ endsWord more = true := by
  induction h with
  | @name token name hname => exact ⟨token, [], rfl, by rw [hname]; rfl, rfl⟩
  | member _ _ ih =>
    obtain ⟨token, more, rfl, htoken, hmore⟩ := ih
    exact ⟨token, _, rfl, htoken, endsWord_append hmore rfl⟩
  | element _ _ ih =>
    obtain ⟨token, more, rfl, htoken, hmore⟩ := ih
    exact ⟨token, _, rfl, htoken, endsWord_append hmore rfl⟩

/-- What begins with a name that no argument list follows is read as a path. -/
theorem readOperand_of_name {token : Token} {more : List Token}
    (htoken : (name? token).isSome = true) (hmore : endsWord more = true) :
    readOperand (token :: more) =
      (readPath (token :: more)).map fun (steps, rest) => (.path steps, rest) := by
  unfold readOperand
  split
  · rename_i heq
    cases heq
    cases htoken
  · rename_i heq
    cases heq
    cases hmore
  · rfl

theorem readClosed_of_eq_some {α : Type} {reader : Reader α} {x : α} {tokens rest : List Token}
    (h : reader tokens = some (x, .mark .closing :: rest)) :
    readClosed reader tokens = some (x, rest) := by
  rw [readClosed, h]

/-- **An operand is read.** -/
theorem SpelledOperand.readOperand {tokens : List Token} {operand : Operand}
    (h : SpelledOperand tokens operand) (rest : List Token) (hrest : endsOperand rest = true) :
    ∃ found, found.Alike operand ∧ readOperand (tokens ++ rest) = some (found, rest) := by
  cases h with
  | @path _ steps hpath =>
    refine ⟨.path steps, .path steps, ?_⟩
    have hread := hpath.readPath hrest
    obtain ⟨token, more, rfl, htoken, hmore⟩ := hpath.exists_cons
    rw [List.cons_append] at hread ⊢
    rw [readOperand_of_name htoken (endsWord_append hmore (endsWord_of_endsOperand hrest)), hread]
    rfl
  | @size tokens steps hpath =>
    refine ⟨.size steps, .size steps, ?_⟩
    have hclosed : readClosed Condition.readPath (tokens ++ .mark .closing :: rest) =
        some (steps, rest) := readClosed_of_eq_some (hpath.readPath rfl)
    simp only [List.cons_append, List.append_assoc, List.nil_append, Condition.readOperand, hclosed]
    rfl
  | @value v w hsame => exact ⟨.value v, .value hsame, rfl⟩

theorem SpelledOperand.length_pos {tokens : List Token} {operand : Operand}
    (h : SpelledOperand tokens operand) : 0 < tokens.length := by
  cases h with
  | path hpath =>
    obtain ⟨token, more, rfl, -⟩ := hpath.exists_cons
    exact Nat.succ_pos _
  | size => exact Nat.succ_pos _
  | value => exact Nat.succ_pos _

/-- Operands with commas between them are read up to the closing parenthesis. -/
theorem SpelledOperands.readOperands {tokens : List Token} {operands : List Operand}
    (h : SpelledOperands tokens operands) {bound : Nat} (hbound : tokens.length ≤ bound)
    (rest : List Token) :
    ∃ found, List.Forall₂ Operand.Alike found operands ∧
      readOperands bound (tokens ++ .mark .closing :: rest) =
        some (found, .mark .closing :: rest) := by
  induction h generalizing bound with
  | one hone =>
    have hpos := hone.length_pos
    cases bound with
    | zero => omega
    | succ bound =>
      obtain ⟨found, halike, hread⟩ := hone.readOperand (.mark .closing :: rest) rfl
      refine ⟨[found], .cons halike .nil, ?_⟩
      simp only [Condition.readOperands, hread, Option.bind_eq_bind, Option.bind_some]
  | @more tokens others operand operands hone _ ih =>
    have hpos := hone.length_pos
    rw [List.length_append, List.length_cons] at hbound
    cases bound with
    | zero => omega
    | succ bound =>
      obtain ⟨found, halike, hread⟩ :=
        hone.readOperand (.mark .comma :: (others ++ .mark .closing :: rest)) rfl
      obtain ⟨more, halikes, hreads⟩ := ih (Nat.le_of_succ_le_succ (by omega : others.length + 1 ≤ bound + 1))
      refine ⟨found :: more, .cons halike halikes, ?_⟩
      rw [List.append_assoc, List.cons_append]
      simp only [Condition.readOperands, hread, hreads, Option.bind_eq_bind, Option.bind_some]

theorem SpelledOperands.readArguments {tokens : List Token} {operands : List Operand}
    (h : SpelledOperands tokens operands) (rest : List Token) :
    ∃ found, List.Forall₂ Operand.Alike found operands ∧
      readArguments (tokens ++ .mark .closing :: rest) = some (found, rest) := by
  have hbound : tokens.length ≤ (tokens ++ Token.mark .closing :: rest).length :=
    List.length_append ▸ Nat.le_add_right _ _
  obtain ⟨found, halike, hread⟩ := h.readOperands hbound rest
  exact ⟨found, halike, readClosed_of_eq_some hread⟩

/-! ### Atoms -/

/-- What no argument list follows is read as an operand and a relation. -/
theorem readAtom_of_endsWord {token : Token} {more : List Token} (h : endsWord more = true) :
    readAtom (token :: more) =
      (readOperand (token :: more)).bind fun read => readRelation read.1 read.2 := by
  unfold readAtom
  split
  · rename_i heq
    cases heq
    cases h
  · rfl

/-- What begins with an operand is read as the operand and a relation. -/
theorem SpelledOperand.readAtom {tokens : List Token} {operand : Operand}
    (h : SpelledOperand tokens operand) (rest : List Token) (hrest : endsOperand rest = true) :
    ∃ found, found.Alike operand ∧ readAtom (tokens ++ rest) = readRelation found rest := by
  obtain ⟨found, halike, hread⟩ := h.readOperand rest hrest
  refine ⟨found, halike, ?_⟩
  cases h with
  | path hpath =>
    obtain ⟨token, more, rfl, htoken, hmore⟩ := hpath.exists_cons
    have hends := endsWord_append hmore (endsWord_of_endsOperand hrest)
    rw [List.cons_append] at hread ⊢
    rw [readAtom_of_endsWord hends, hread]
    rfl
  | size =>
    have hsize : function? StoreFunction.size.name = none := rfl
    rw [List.cons_append, List.cons_append] at hread ⊢
    rw [Condition.readAtom, hsize]
    simp only [hread, Option.bind_eq_bind, Option.bind_some]
  | value =>
    rw [List.singleton_append] at hread ⊢
    rw [readAtom_of_endsWord (endsWord_of_endsOperand hrest), hread]
    rfl

/-- **An atom is read.** -/
theorem SpelledAtom.readAtom {tokens : List Token} {c : Condition} (h : SpelledAtom tokens c)
    (rest : List Token) (hrest : endsOperand rest = true) :
    ∃ found, found.Alike c ∧ readAtom (tokens ++ rest) = some (found, rest) := by
  cases h with
  | @comparison l r left right op hl hr =>
    obtain ⟨left', hleft, hatom⟩ := hl.readAtom (.operator op :: (r ++ rest)) rfl
    obtain ⟨right', hright, hread⟩ := hr.readOperand rest hrest
    refine ⟨.comparison op left' right', .comparison hleft hright, ?_⟩
    rw [List.append_assoc, List.cons_append, hatom, readRelation, hread]
    rfl
  | @between x l h operand low high hx hl hh =>
    obtain ⟨operand', hoperand, hatom⟩ :=
      hx.readAtom (.keyword .between :: (l ++ .keyword .and :: (h ++ rest))) rfl
    obtain ⟨low', hlow, hreadlow⟩ := hl.readOperand (.keyword .and :: (h ++ rest)) rfl
    obtain ⟨high', hhigh, hreadhigh⟩ := hh.readOperand rest hrest
    refine ⟨.call .between [operand', low', high'], .call ?_, ?_⟩
    · exact .cons hoperand (.cons hlow (.cons hhigh .nil))
    · simp only [List.append_assoc, List.cons_append]
      rw [hatom, readRelation, hreadlow]
      simp only [Option.bind_eq_bind, Option.bind_some, hreadhigh]
  | @isIn x tokens operand candidates hx hcandidates =>
    obtain ⟨operand', hoperand, hatom⟩ := hx.readAtom
      (.keyword .isIn :: .mark .opening :: (tokens ++ .mark .closing :: rest)) rfl
    obtain ⟨candidates', halike, hread⟩ := hcandidates.readArguments rest
    refine ⟨.call .isIn (operand' :: candidates'), .call (.cons hoperand halike), ?_⟩
    simp only [List.append_assoc, List.cons_append, List.nil_append]
    rw [hatom, readRelation, hread]
    rfl
  | @call function tokens args hfunction hargs htakes =>
    obtain ⟨args', halike, hread⟩ := hargs.readArguments rest
    refine ⟨.call function args', .call halike, ?_⟩
    simp only [List.append_assoc, List.cons_append, List.nil_append]
    rw [Condition.readAtom, hfunction]
    simp only [hread, Option.bind_eq_bind, Option.bind_some, halike.length_eq, htakes, if_true]

theorem SpelledAtom.exists_cons {tokens : List Token} {c : Condition} (h : SpelledAtom tokens c) :
    ∃ token more, tokens = token :: more ∧ token ≠ .keyword .not ∧ token ≠ .mark .opening := by
  have hoperand : ∀ {x : List Token} {operand : Operand} (more : List Token),
      SpelledOperand x operand → ∃ token more', x ++ more = token :: more' ∧
        token ≠ .keyword .not ∧ token ≠ .mark .opening := by
    intro x operand more hx
    cases hx with
    | path hpath =>
      obtain ⟨token, more', rfl, htoken, -⟩ := hpath.exists_cons
      refine ⟨token, more' ++ more, rfl, ?_, ?_⟩
      · rintro rfl
        cases htoken
      · rintro rfl
        cases htoken
    | size => exact ⟨_, _, rfl, nofun, nofun⟩
    | value => exact ⟨_, _, rfl, nofun, nofun⟩
  cases h with
  | comparison _ hl => exact hoperand _ hl
  | between hx => exact hoperand _ hx
  | isIn hx => exact hoperand _ hx
  | call => exact ⟨_, _, rfl, nofun, nofun⟩

/-! ### Chains -/

/-- Tokens that a reader reads as a condition, whatever of some kind follows them. -/
def ReadsItem (item : Reader Condition) (stops : List Token → Prop) (tokens : List Token)
    (c : Condition) : Prop :=
  ∀ rest, stops rest → ∃ found, found.Alike c ∧ item (tokens ++ rest) = some (found, rest)

/-- Tokens that are read as a chain: by themselves, and as the first part of a longer chain. -/
structure ReadsChain (op : BinaryOp) (keyword : Keyword) (item : Reader Condition)
    (stops : List Token → Prop) (tokens : List Token) (c : Condition) : Prop where
  whole : ∀ bound rest, tokens.length ≤ bound → stops rest →
    ∃ found, found.Alike c ∧ readChain op keyword item bound (tokens ++ rest) = some (found, rest)
  first : ∀ least others rest d,
    (∀ bound, least ≤ bound → ∃ found, Condition.Alike found d ∧
      readChain op keyword item bound others = some (found, rest)) →
    ∀ bound, tokens.length + least ≤ bound → ∃ found, Condition.Alike found (.join op c d) ∧
      readChain op keyword item bound (tokens ++ .keyword keyword :: others) = some (found, rest)

section
variable {op : BinaryOp} {keyword : Keyword} {item : Reader Condition}
  {stops stops' : List Token → Prop} {tokens others : List Token} {c d : Condition}

/-- One item is a chain. -/
theorem ReadsItem.readsChain (h : ReadsItem item stops' tokens c) (hpos : 0 < tokens.length)
    (hkeyword : ∀ rest, stops' (.keyword keyword :: rest))
    (hstops : ∀ rest, stops rest → stops' rest ∧ ∀ more, rest ≠ .keyword keyword :: more) :
    ReadsChain op keyword item stops tokens c where
  whole bound rest hbound hrest := by
    obtain ⟨hrest, hne⟩ := hstops rest hrest
    obtain ⟨found, halike, hread⟩ := h rest hrest
    refine ⟨found, halike, ?_⟩
    cases bound with
    | zero => omega
    | succ bound =>
      simp only [readChain, hread, Option.bind_eq_bind, Option.bind_some]
      split
      · split
        · rename_i heq
          subst heq
          exact absurd rfl (hne _)
        · rfl
      · rfl
  first least more rest d hmore bound hbound := by
    obtain ⟨left, hleft, hread⟩ := h _ (hkeyword more)
    cases bound with
    | zero => omega
    | succ bound =>
      obtain ⟨right, hright, hreads⟩ := hmore bound (by omega)
      refine ⟨.join op left right, .join hleft hright, ?_⟩
      simp only [readChain, hread, hreads, Option.bind_eq_bind, Option.bind_some, if_true]

/-- **Two chains of one operator are one chain**: its first conditions are those of the first, and
only the grouping changes. -/
theorem readsChain_join (hl : ReadsChain op keyword item stops tokens c)
    (hr : ReadsChain op keyword item stops others d) :
    ReadsChain op keyword item stops (tokens ++ .keyword keyword :: others) (.join op c d) where
  whole bound rest hbound hrest := by
    rw [List.length_append, List.length_cons] at hbound
    rw [List.append_assoc, List.cons_append]
    exact hl.first others.length (others ++ rest) rest d
      (fun bound hbound => hr.whole bound rest hbound hrest) bound (by omega)
  first least more rest e hmore bound hbound := by
    rw [List.length_append, List.length_cons] at hbound
    rw [List.append_assoc, List.cons_append]
    obtain ⟨found, halike, hread⟩ := hl.first (others.length + least) _ rest (.join op d e)
      (fun bound hbound => hr.first least more rest e hmore bound hbound) bound (by omega)
    exact ⟨found, halike.trans (.regroup op c d e), hread⟩

end

/-! ### Conditions -/

/-- What ends a chain inside a chain of another operator: nothing of an operand, and not its own
keyword. -/
def EndsChain (keyword : Keyword) (stops : List Token → Prop) (rest : List Token) : Prop :=
  stops rest ∧ ∀ more, rest ≠ .keyword keyword :: more

/-- The end of an operand. -/
def EndsUnit (rest : List Token) : Prop := endsOperand rest = true

/-- The reader of conditions that AND joins. -/
def readConjunction (item : Reader Condition) : Reader Condition := fun tokens =>
  readChain .and .and item tokens.length tokens

/-- How the tokens of a condition of some rank are read, where negations and parentheses may be nested
as deep as there are tokens. -/
def Reads (tokens : List Token) (c : Condition) : Rank → Prop
  | .unit => ∀ bound, tokens.length ≤ bound → ReadsItem (readNegation bound) EndsUnit tokens c
  | .conjunction => ∀ bound, tokens.length ≤ bound →
      ReadsChain .and .and (readNegation bound) (EndsChain .and EndsUnit) tokens c
  | .disjunction => ∀ bound, tokens.length ≤ bound →
      ReadsChain .or .or (readConjunction (readNegation bound))
        (EndsChain .or (EndsChain .and EndsUnit)) tokens c

theorem Spelled.length_pos {rank : Rank} {tokens : List Token} {c : Condition}
    (h : Spelled rank tokens c) : 0 < tokens.length := by
  induction h with
  | atom hatom =>
    obtain ⟨token, more, rfl, -⟩ := hatom.exists_cons
    exact Nat.succ_pos _
  | not => exact Nat.succ_pos _
  | group => exact Nat.succ_pos _
  | ofUnit _ ih => exact ih
  | and _ _ ihl _ => exact Nat.lt_of_lt_of_le ihl (List.length_append ▸ Nat.le_add_right _ _)
  | ofConjunction _ ih => exact ih
  | or _ _ ihl _ => exact Nat.lt_of_lt_of_le ihl (List.length_append ▸ Nat.le_add_right _ _)

theorem readNegation_of_atom {token : Token} {more : List Token} (hnot : token ≠ .keyword .not)
    (hopening : token ≠ .mark .opening) (bound : Nat) :
    readNegation (bound + 1) (token :: more) = readAtom (token :: more) := by
  unfold readNegation
  split
  · rename_i heq
    cases heq
    exact absurd rfl hnot
  · rename_i heq
    cases heq
    exact absurd rfl hopening
  · rfl

/-- A whole disjunction is read in front of a closing parenthesis or the end. -/
theorem readDisjunction_append {tokens : List Token} {c : Condition} {bound : Nat}
    (h : ReadsChain .or .or (readConjunction (readNegation bound))
      (EndsChain .or (EndsChain .and EndsUnit)) tokens c) (rest : List Token)
    (hrest : EndsChain .or (EndsChain .and EndsUnit) rest) :
    ∃ found, Condition.Alike found c ∧
      readDisjunction (readNegation bound) (tokens ++ rest) = some (found, rest) :=
  h.whole _ rest (List.length_append ▸ Nat.le_add_right _ _) hrest

theorem Spelled.reads {rank : Rank} {tokens : List Token} {c : Condition}
    (h : Spelled rank tokens c) : Reads tokens c rank := by
  induction h with
  | @atom tokens c hatom =>
    intro bound hbound rest hrest
    obtain ⟨found, halike, hread⟩ := hatom.readAtom rest hrest
    obtain ⟨token, more, rfl, hnot, hopening⟩ := hatom.exists_cons
    cases bound with
    | zero => cases hbound
    | succ bound =>
      rw [List.cons_append] at hread ⊢
      exact ⟨found, halike, (readNegation_of_atom hnot hopening bound).trans hread⟩
  | @not tokens c _ ih =>
    intro bound hbound rest hrest
    cases bound with
    | zero => cases hbound
    | succ bound =>
      obtain ⟨found, halike, hread⟩ := ih bound (Nat.le_of_succ_le_succ hbound) rest hrest
      refine ⟨.not found, .not halike, ?_⟩
      simp only [List.cons_append, readNegation, hread, Option.bind_eq_bind, Option.bind_some]
  | @group tokens c _ ih =>
    intro bound hbound rest hrest
    rw [List.length_cons, List.length_append] at hbound
    cases bound with
    | zero => omega
    | succ bound =>
      obtain ⟨found, halike, hread⟩ := readDisjunction_append (ih bound (by omega))
        (.mark .closing :: rest) ⟨⟨rfl, nofun⟩, nofun⟩
      refine ⟨found, halike, ?_⟩
      rw [List.cons_append, List.append_assoc, List.singleton_append, readNegation]
      exact readClosed_of_eq_some hread
  | ofUnit hunit ih =>
    intro bound hbound
    exact (ih bound hbound).readsChain hunit.length_pos (fun _ => rfl) fun _ hrest => hrest
  | and hl hr ihl ihr =>
    intro bound hbound
    rw [List.length_append, List.length_cons] at hbound
    exact readsChain_join (ihl bound (by omega)) (ihr bound (by omega))
  | @ofConjunction tokens c hconjunction ih =>
    intro bound hbound
    have hitem : ReadsItem (readConjunction (readNegation bound)) (EndsChain .and EndsUnit)
        tokens c := fun rest hrest =>
      (ih bound hbound).whole _ rest (List.length_append ▸ Nat.le_add_right _ _) hrest
    exact hitem.readsChain hconjunction.length_pos (fun _ => ⟨rfl, nofun⟩) fun _ hrest => hrest
  | or hl hr ihl ihr =>
    intro bound hbound
    rw [List.length_append, List.length_cons] at hbound
    exact readsChain_join (ihl bound (by omega)) (ihr bound (by omega))

/-- **What is spelled is read**, all of it, as a condition that is alike. -/
theorem Spelled.ofTokens? {tokens : List Token} {c : Condition}
    (h : Spelled .disjunction tokens c) :
    ∃ found, Condition.Alike found c ∧ ofTokens? tokens = some found := by
  obtain ⟨found, halike, hread⟩ := readDisjunction_append (h.reads tokens.length (Nat.le_refl _))
    [] ⟨⟨rfl, nofun⟩, nofun⟩
  rw [List.append_nil] at hread
  exact ⟨found, halike, by rw [Condition.ofTokens?, hread]⟩

end Condition

end ItemMapper
