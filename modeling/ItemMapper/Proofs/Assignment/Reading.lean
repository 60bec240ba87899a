import ItemMapper.Proofs.Assignment.Grammar
import ItemMapper.Proofs.Condition.Reading

/-!
# Reading assignments that are spelled

The grammar of SET, said the other way round: which lists of tokens spell a term or a row of terms.
A row grows at its end, so the value that it spells groups from the left. Whatever is spelled is
read, all of it and as a value that is alike.

## Main definitions

* `SetValue.Spelled`: the values that are terms or rows of terms.

## Main statements

* `SetValue.Spelled.ofTokens?`: what is spelled is read.
-/

namespace ItemMapper

open Condition Assignment

namespace SetValue

/-- What a value is as a part of the grammar. -/
inductive Part where
  | term
  | row
deriving DecidableEq, Repr

/-- The tokens of a value. -/
inductive Spelled : Part → List Token → SetValue → Prop
  | operand {tokens : List Token} {operand : Operand} : SpelledOperand tokens operand →
      Spelled .term tokens (.operand operand)
  | ifNotExists {path tokens : List Token} {steps : List Step} {fallback : SetValue} :
      SpelledPath path steps → Spelled .row tokens fallback →
      Spelled .term
        (.word StoreFunction.ifNotExists.name :: .mark .opening ::
          (path ++ .mark .comma :: (tokens ++ [.mark .closing])))
        (.ifNotExists steps fallback)
  | listAppend {l r : List Token} {first second : SetValue} :
      Spelled .row l first → Spelled .row r second →
      Spelled .term
        (.word StoreFunction.listAppend.name :: .mark .opening ::
          (l ++ .mark .comma :: (r ++ [.mark .closing])))
        (.listAppend first second)
  | ofTerm {tokens : List Token} {value : SetValue} : Spelled .term tokens value →
      Spelled .row tokens value
  | calculation (sign : Sign) {l r : List Token} {left right : SetValue} :
      Spelled .row l left → Spelled .term r right →
      Spelled .row (l ++ .operator sign.op :: r) (.calculation sign left right)

/-- How many terms a row has behind the first. -/
def joints : SetValue → Nat
  | .calculation _ left _ => left.joints + 1
  | _ => 0

theorem Spelled.joints_eq_zero {tokens : List Token} {value : SetValue}
    (h : Spelled .term tokens value) : value.joints = 0 := by
  cases h <;> rfl

theorem Spelled.joints_le {part : Part} {tokens : List Token} {value : SetValue}
    (h : Spelled part tokens value) : value.joints ≤ tokens.length := by
  induction h with
  | operand | ifNotExists | listAppend => exact Nat.zero_le _
  | ofTerm _ ih => exact ih
  | calculation _ _ _ ihl _ =>
    rw [joints, List.length_append, List.length_cons]
    omega

/-- What ends a row: nothing of an operand, and no sign. -/
def EndsRow : List Token → Prop
  | [] => True
  | token :: rest => endsOperand (token :: rest) = true ∧ sign? token = none

theorem EndsRow.endsOperand {rest : List Token} (h : EndsRow rest) : endsOperand rest = true := by
  cases rest with
  | nil => rfl
  | cons token rest => exact h.1

theorem EndsRow.readTerms {rest : List Token} (h : EndsRow rest) (term : Reader SetValue)
    (bound : Nat) (value : SetValue) : readTerms term bound value rest = some (value, rest) := by
  cases bound with
  | zero => rfl
  | succ bound =>
    cases rest with
    | nil => rfl
    | cons token rest => simp only [Assignment.readTerms, h.2]

/-- A sign leads on to the next term. -/
theorem readTerms_sign (sign : Sign) {term : Reader SetValue} {bound : Nat}
    {value next : SetValue} {tokens rest : List Token} (h : term tokens = some (next, rest)) :
    readTerms term (bound + 1) value (.operator sign.op :: tokens) =
      readTerms term bound (.calculation sign value next) rest := by
  have hsign : sign? (.operator sign.op) = some sign := by cases sign <;> rfl
  simp only [readTerms, hsign, h, Option.bind_eq_bind, Option.bind_some]

/-- How the tokens of a value are read, where calls may be nested as deep as there are tokens: a term by
itself, and a row up to its last term, whatever terms follow. -/
def Reads (tokens : List Token) (value : SetValue) : Part → Prop
  | .term => ∀ bound, tokens.length ≤ bound → ∀ rest, endsOperand rest = true →
      ∃ found, found.Alike value ∧ readTerm bound (tokens ++ rest) = some (found, rest)
  | .row => ∀ bound, tokens.length ≤ bound → ∀ more rest, endsOperand rest = true →
      ∃ found, found.Alike value ∧
        readRow (readTerm bound) (value.joints + more) (tokens ++ rest) =
          readTerms (readTerm bound) more found rest

/-- A whole row is read in front of what ends it. -/
theorem readValue_append {tokens : List Token} {value : SetValue} {part : Part}
    (h : Spelled part tokens value) (hreads : Reads tokens value .row) {bound : Nat}
    (hbound : tokens.length ≤ bound) (rest : List Token) (hrest : EndsRow rest) :
    ∃ found, found.Alike value ∧
      readValue (readTerm bound) (tokens ++ rest) = some (found, rest) := by
  obtain ⟨more, hmore⟩ : ∃ more, (tokens ++ rest).length = value.joints + more :=
    Nat.exists_eq_add_of_le
      (Nat.le_trans h.joints_le (List.length_append ▸ Nat.le_add_right _ _))
  obtain ⟨found, halike, hread⟩ := hreads bound hbound more rest hrest.endsOperand
  exact ⟨found, halike, by rw [readValue, hmore, hread, hrest.readTerms]⟩

/-- A term that begins with a name or a value is an operand. -/
theorem readTerm_of_operand {tokens : List Token} {operand : Operand}
    (h : SpelledOperand tokens operand) (bound : Nat) {rest : List Token}
    (hrest : endsOperand rest = true) :
    readTerm (bound + 1) (tokens ++ rest) =
      (readOperand (tokens ++ rest)).map fun (operand, rest) => (.operand operand, rest) := by
  cases h with
  | path hpath =>
    obtain ⟨token, more, rfl, htoken, hmore⟩ := hpath.exists_cons
    have hends := endsWord_append hmore (endsWord_of_endsOperand hrest)
    rw [List.cons_append]
    unfold readTerm
    split
    · rename_i heq
      cases heq
      cases htoken
    · rename_i heq
      obtain ⟨rfl, hopening⟩ := List.cons.inj heq
      rw [hopening] at hends
      cases hends
    · rfl
  | size hpath => rfl
  | value hsame => rfl

theorem Spelled.reads {part : Part} {tokens : List Token} {value : SetValue}
    (h : Spelled part tokens value) : Reads tokens value part := by
  induction h with
  | @operand tokens operand hoperand =>
    intro bound hbound rest hrest
    obtain ⟨found, halike, hread⟩ := hoperand.readOperand rest hrest
    have hpos := hoperand.length_pos
    cases bound with
    | zero => omega
    | succ bound =>
      refine ⟨.operand found, .operand halike, ?_⟩
      rw [readTerm_of_operand hoperand bound hrest, hread]
      rfl
  | @ifNotExists path tokens steps fallback hpath hfallback ih =>
    intro bound hbound rest hrest
    simp only [List.length_cons, List.length_append] at hbound
    cases bound with
    | zero => omega
    | succ bound =>
      have hbound' : tokens.length ≤ bound := by omega
      obtain ⟨found, halike, hread⟩ :=
        readValue_append hfallback ih hbound' (.mark .closing :: rest) ⟨rfl, rfl⟩
      refine ⟨.ifNotExists steps found, .ifNotExists halike, ?_⟩
      have hcomma : endsOperand (.mark .comma :: (tokens ++ .mark .closing :: rest)) = true := rfl
      have hsteps := hpath.readPath hcomma
      simp only [List.cons_append, List.append_assoc, List.nil_append, readTerm, if_true, hsteps,
        readClosed_of_eq_some hread, Option.bind_eq_bind, Option.bind_some]
  | @listAppend l r first second hl hr ihl ihr =>
    intro bound hbound rest hrest
    simp only [List.length_cons, List.length_append] at hbound
    cases bound with
    | zero => omega
    | succ bound =>
      have hboundl : l.length ≤ bound := by omega
      have hboundr : r.length ≤ bound := by omega
      obtain ⟨first', hfirst, hread⟩ :=
        readValue_append hl ihl hboundl (.mark .comma :: (r ++ .mark .closing :: rest)) ⟨rfl, rfl⟩
      obtain ⟨second', hsecond, hread'⟩ :=
        readValue_append hr ihr hboundr (.mark .closing :: rest) ⟨rfl, rfl⟩
      refine ⟨.listAppend first' second', .listAppend hfirst hsecond, ?_⟩
      have hname : StoreFunction.listAppend.name ≠ StoreFunction.ifNotExists.name := by decide
      simp only [List.cons_append, List.append_assoc, List.nil_append, readTerm, if_neg hname, if_true,
        hread, readClosed_of_eq_some hread', Option.bind_eq_bind, Option.bind_some]
  | ofTerm hterm ih =>
    intro bound hbound more rest hrest
    obtain ⟨found, halike, hread⟩ := ih bound hbound rest hrest
    refine ⟨found, halike, ?_⟩
    rw [readRow, hread, hterm.joints_eq_zero, Nat.zero_add]
    rfl
  | @calculation sign l r left right _ _ ihl ihr =>
    intro bound hbound more rest hrest
    rw [List.length_append, List.length_cons] at hbound
    obtain ⟨left', hleft, hreadl⟩ := ihl bound (by omega) (more + 1) (.operator sign.op :: (r ++ rest)) rfl
    obtain ⟨right', hright, hreadr⟩ := ihr bound (by omega) rest hrest
    refine ⟨.calculation sign left' right', .calculation hleft hright, ?_⟩
    rw [joints, Nat.add_assoc, Nat.add_comm 1 more, List.append_assoc, List.cons_append, hreadl,
      readTerms_sign sign hreadr]

/-- **What is spelled is read**, all of it, as a value that is alike. -/
theorem Spelled.ofTokens? {path tokens : List Token} {target : List Step} {value : SetValue}
    (hpath : SpelledPath path target) (h : Spelled .row tokens value) :
    ∃ found, found.Alike value ∧
      Assignment.ofTokens? (path ++ .operator .eq :: tokens) = some ⟨target, found⟩ := by
  obtain ⟨found, halike, hread⟩ := readValue_append h h.reads (Nat.le_refl _) [] trivial
  rw [List.append_nil] at hread
  have hassign : endsOperand (.operator .eq :: tokens) = true := rfl
  refine ⟨found, halike, ?_⟩
  simp only [Assignment.ofTokens?, hpath.readPath hassign, hread]

end SetValue

end ItemMapper
