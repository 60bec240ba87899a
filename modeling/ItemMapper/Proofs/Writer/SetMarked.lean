import ItemMapper.Proofs.Bytes.Order
import ItemMapper.Proofs.Values.Settled

/-!
# Arrays that are marked as sets

Closing an array that is marked as a set, and that stands in no other array, looks at the elements once
they are all there. Texts, byte strings and numbers become the set of what they hold: each value once, in
strictly ascending order, so that it makes no difference in which order and how often they were written.
Elements of different families are refused, and so is null; nothing is written then. All values that no
set can hold are one family, so that elements of different types stay together in a list if none of them
can be in a set.

## Main definitions

* `IsSetOf`: the members of a set of values.
* `TextBefore`, `BytesBefore`, `NumberBefore`: the orders in sets.
* `Writer.Writes`: calls that write elements into an open array.
* `Writer.InfersSets`: the sets that arrays in a slot become.
* `Writer.IsMixed`: elements of different types.

## Main statements

* `Writer.infersSets_of_free`: **nothing is lost, added or written twice in a set**.
* `Writer.closeMixed_of_free`: **which mixed elements are refused, and what becomes of the others**.
-/

namespace ItemMapper

/-! ### The members of a set -/

/-- The members of the set of some values: just these, in strictly ascending order. -/
structure IsSetOf {α : Type} (before : α → α → Prop) (values members : List α) : Prop where
  mem_iff : ∀ a, a ∈ members ↔ a ∈ values
  ascending : members.Pairwise before

/-- The order of byte strings. -/
def BytesBefore (a b : Bytes) : Prop := compareBytes a b = .lt

/-- The order of texts, byte by byte. -/
def TextBefore (a b : String) : Prop := BytesBefore (utf8 a) (utf8 b)

/-- The order of number texts: by what they denote, and between texts of equal numbers as texts. -/
def NumberBefore (a b : String) : Prop :=
  (numberValue a).compare? (numberValue b) = some .lt ∨
    (numberValue a).compare? (numberValue b) = some .eq ∧ TextBefore a b

theorem textBefore_iff {a b : String} : TextBefore a b ↔ compareText a b = .lt := by
  rw [TextBefore, BytesBefore, compareText_eq_compareBytes]

theorem numberBefore_of_compareNumberText {a b : String} (ha : IsNumber a) (hb : IsNumber b)
    (h : compareNumberText a b = .lt) : NumberBefore a b := by
  have hvalues : (numberValue a).compare? (numberValue b) = some (compareKeys a b) :=
    Floating.compare?_eq_key ha hb
  rw [compareNumberText_eq_byKey ha hb] at h
  have hthen : (compareKeys a b).then (compareText a b) = .lt := h
  rcases Ordering.then_eq_lt.mp hthen with hkeys | ⟨hkeys, htexts⟩
  · exact .inl (hvalues.trans (congrArg some hkeys))
  · exact .inr ⟨hvalues.trans (congrArg some hkeys), textBefore_iff.mpr htexts⟩

section
variable {α : Type} [DecidableEq α] {cmp : α → α → Ordering} {values written : List α}

theorem mem_sortBy_dedupEq {a : α} : a ∈ sortBy cmp (dedupEq values) ↔ a ∈ values :=
  (sortBy_perm cmp _).mem_iff.trans mem_dedupEq

/-- Sorting the distinct values does not depend on how often and in which order they are given. -/
theorem sortBy_dedupEq_congr [Std.OrientedCmp cmp] (h : ∀ a, a ∈ written ↔ a ∈ values)
    (hascending : (sortBy cmp (dedupEq values)).Pairwise fun a b => cmp a b = .lt) :
    sortBy cmp (dedupEq written) = sortBy cmp (dedupEq values) := by
  have hdistinct : (sortBy cmp (dedupEq values)).Nodup :=
    (sortBy_perm cmp _).nodup_iff.mpr (nodup_dedupEq values)
  refine sortBy_eq_of_perm_of_ascending ?_ hascending
  refine (List.perm_ext_iff_of_nodup (nodup_dedupEq written) hdistinct).mpr fun a => ?_
  exact mem_dedupEq.trans ((h a).trans mem_sortBy_dedupEq.symm)

end

namespace Writer

open AttributeValue (setFrom dropVoid)

variable {w : Writer} {calls : WriterM Unit} {elements : List AttributeValue}

/-! ### Elements of an open array -/

/-- The calls write the elements into the array that was just opened in the slot. -/
def Writes (calls : WriterM Unit) (w : Writer) (asSet : Bool) (elements : List AttributeValue) : Prop :=
  calls (w.withArray asSet w.isInArray []) = .ok () (w.withArray asSet w.isInArray elements)

/-- Any elements can be written one by one. -/
theorem writes_forM (w : Writer) (asSet : Bool) (elements : List AttributeValue) :
    Writes (elements.forM write) w asSet elements := by
  suffices hmore : ∀ before, elements.forM write (w.withArray asSet w.isInArray before) =
      .ok () (w.withArray asSet w.isInArray (before ++ elements)) from hmore []
  induction elements with
  | nil =>
    intro before
    rw [List.append_nil]
    rfl
  | cons e rest ih =>
    intro before
    change (do write e; rest.forM write : WriterM Unit) _ = _
    refine unit_bind_eq_ok.mpr ⟨w.withArray asSet w.isInArray (before ++ [e]), rfl, ?_⟩
    rw [ih, List.append_assoc, List.singleton_append]

/-- An array into which elements were written fills its slot with what becomes of them. Where nothing
becomes of them, the array is gone and the slot is as it was. -/
theorem array_of_writes (hfree : w.checkSlot = .ok ()) {asSet : Bool}
    (hwrites : Writes calls w asSet elements) :
    (do beginArray asSet; calls; endArray) w =
      match closeArray asSet w.isInArray elements with
      | .ok value => .ok () (w.fill value)
      | .error e => .error e w := by
  have hrun : (do beginArray asSet; calls; endArray) w =
      endArray (w.withArray asSet w.isInArray elements) := by
    change EStateM.bind (beginArray asSet) (fun _ => EStateM.bind calls fun _ => endArray) w = _
    simp only [EStateM.bind, beginArray_of_free hfree]
    rw [hwrites]
  rw [hrun, endArray, withArray]
  dsimp only
  cases closeArray asSet w.isInArray elements with
  | ok value => exact write_of_free hfree value
  | error e => rfl

/-! ### Elements of one family -/

/-- In the slot, an array that is marked as a set becomes the set of the values that are written into it,
if there are any and they all count: there are members that are the set of the values, and the array
becomes the set of these members in whatever order and however often the values are written. -/
def InfersSets {α : Type} (w : Writer) (wrap : α → AttributeValue) (set : List α → AttributeValue)
    (counts : α → Prop) (before : α → α → Prop) : Prop :=
  ∀ values : List α, values ≠ [] → (∀ a ∈ values, counts a) →
    ∃ members, IsSetOf before values members ∧
      ∀ written : List α, (∀ a, a ∈ written ↔ a ∈ values) →
        ∀ calls, Writes calls w true (written.map wrap) →
          (do beginArray true; calls; endArray) w = .ok () (w.fill (set members))

/-- Elements that are neither null nor empty are all looked at. -/
theorem closeArray_of_not_isVoid (h : ∀ e ∈ elements, e.isVoid = false) :
    closeArray true false elements = setFrom elements := by
  have hnull : elements.any (·.isNull) = false := by
    refine List.any_eq_false.mpr fun e he => ?_
    exact Bool.not_eq_true _ ▸ (Bool.or_eq_false_iff.mp (h e he)).1
  have hkept : dropVoid elements = elements :=
    List.filter_eq_self.mpr fun e he => congrArg not (h e he)
  rw [closeArray_eq, hnull, hkept]
  rfl

theorem setFrom_texts {texts : List String} (h : texts ≠ []) :
    setFrom (texts.map .text) = .ok (.textSet (sortBy compareText (dedupEq texts))) := by
  have htext : ∀ e ∈ texts.map AttributeValue.text, family e = .text := by
    simp only [List.forall_mem_map]
    exact fun _ _ => rfl
  have hheld : (texts.map AttributeValue.text).filterMap (·.asText?) = texts := by
    rw [List.filterMap_map]
    exact List.filterMap_some
  rw [setFrom, if_neg (mt List.map_eq_nil_iff.mp h), if_pos htext, hheld]

theorem setFrom_binaries {binaries : List Bytes} (h : binaries ≠ []) :
    setFrom (binaries.map .binary) = .ok (.binarySet (sortBy compareBytes (dedupEq binaries))) := by
  have hbinary : ∀ e ∈ binaries.map AttributeValue.binary, family e = .binary := by
    simp only [List.forall_mem_map]
    exact fun _ _ => rfl
  have hother : ∀ kind ≠ Family.binary,
      ¬ ∀ e ∈ binaries.map AttributeValue.binary, family e = kind := by
    obtain ⟨first, rest, rfl⟩ := List.exists_cons_of_ne_nil h
    exact fun kind hkind hall => hkind (hall _ List.mem_cons_self).symm
  have hheld : (binaries.map AttributeValue.binary).filterMap (·.asBinary?) = binaries := by
    rw [List.filterMap_map]
    exact List.filterMap_some
  rw [setFrom, if_neg (mt List.map_eq_nil_iff.mp h), if_neg (hother .text (by decide)),
    if_neg (hother .number (by decide)), if_pos hbinary, hheld]

section
variable {α : Type} [DecidableEq α] {wrap : α → AttributeValue} {set : List α → AttributeValue}
  {counts : α → Prop} {before : α → α → Prop} {cmp : α → α → Ordering} [Std.OrientedCmp cmp]

/-- Elements of one family, if their distinct values ascend strictly when they are sorted. -/
theorem infersSets_of_setFrom (hfree : w.checkSlot = .ok ()) (hplace : w.isInArray = false)
    (hkept : ∀ a, (wrap a).isVoid = false)
    (hset : ∀ {values : List α}, values ≠ [] →
      setFrom (values.map wrap) = .ok (set (sortBy cmp (dedupEq values))))
    (hascending : ∀ {values : List α}, (∀ a ∈ values, counts a) → values.Nodup →
      (sortBy cmp values).Pairwise fun a b => cmp a b = .lt)
    (hbefore : ∀ {a b : α}, counts a → counts b → cmp a b = .lt → before a b) :
    InfersSets w wrap set counts before := by
  intro values hvalues hcounts
  have hsorted : (sortBy cmp (dedupEq values)).Pairwise fun a b => cmp a b = .lt :=
    hascending (fun a ha => hcounts a (mem_dedupEq.mp ha)) (nodup_dedupEq values)
  have hmember : ∀ {a}, a ∈ sortBy cmp (dedupEq values) → counts a := fun ha =>
    hcounts _ (mem_sortBy_dedupEq.mp ha)
  refine ⟨sortBy cmp (dedupEq values), ⟨fun a => mem_sortBy_dedupEq, ?_⟩, ?_⟩
  · exact hsorted.imp_of_mem fun ha hb hlt => hbefore (hmember ha) (hmember hb) hlt
  · intro written hwritten calls hwrites
    have hne : written ≠ [] := by
      obtain ⟨a, ha⟩ := List.exists_mem_of_ne_nil values hvalues
      exact List.ne_nil_of_mem ((hwritten a).mpr ha)
    have hvoid : ∀ e ∈ written.map wrap, e.isVoid = false := by
      simp only [List.forall_mem_map]
      exact fun a _ => hkept a
    have hclose : closeArray true false (written.map wrap) =
        .ok (set (sortBy cmp (dedupEq values))) := by
      rw [closeArray_of_not_isVoid hvoid, hset hne, sortBy_dedupEq_congr hwritten hsorted]
    rw [array_of_writes hfree hwrites, hplace, hclose]

end

/-- **A set holds what was written.** In every slot that is free and not in an array, an array that is
marked as a set becomes the set of the texts, of the byte strings or of the numbers that are written into
it, each once and in strictly ascending order, whatever their order and however often each is written.
Numbers ascend by what they denote, and texts of equal numbers as texts. -/
theorem infersSets_of_free (hfree : w.checkSlot = .ok ()) (hplace : w.isInArray = false) :
    InfersSets w .text .textSet (fun _ => True) TextBefore ∧
      InfersSets w .binary .binarySet (fun _ => True) BytesBefore ∧
        InfersSets w .number .numberSet IsNumber NumberBefore := by
  refine ⟨?_, ?_, ?_⟩
  · exact infersSets_of_setFrom hfree hplace (fun _ => rfl) setFrom_texts
      (fun _ hnodup => sortBy_ascending compareText hnodup) fun _ _ => textBefore_iff.mpr
  · exact infersSets_of_setFrom hfree hplace (fun _ => rfl) setFrom_binaries
      (fun _ hnodup => sortBy_ascending compareBytes hnodup) fun _ _ => id
  · exact infersSets_of_setFrom hfree hplace (fun _ => rfl) setFrom_numbers
      sortBy_compareNumberText_ascending numberBefore_of_compareNumberText

/-- Numbers that are written in no order and one of them twice, two of them texts of the same number. -/
theorem infersSets_of_free_numbers :
    (new .none).checkSlot = .ok () ∧ (new .none).isInArray = false ∧
      (∀ digits ∈ ["10", "9", "9.0"], IsNumber digits) ∧
        ∃ members, IsSetOf NumberBefore ["10", "9", "9.0"] members ∧
          (do
            beginArray true
            (["9.0", "10", "9", "10"].map AttributeValue.number).forM write
            endArray) (new .none) = .ok () ((new .none).fill (.numberSet members)) := by
  have hsame : ∀ digits, digits ∈ ["9.0", "10", "9", "10"] ↔ digits ∈ ["10", "9", "9.0"] :=
    fun digits => by simp; tauto
  have hnumbers : ∀ digits ∈ ["10", "9", "9.0"], numberValue digits ≠ .nan := by decide +kernel
  obtain ⟨members, hset, hwritten⟩ :=
    (infersSets_of_free (w := new .none) rfl rfl).2.2 ["10", "9", "9.0"] (by decide) hnumbers
  refine ⟨rfl, rfl, hnumbers, members, hset, ?_⟩
  exact hwritten ["9.0", "10", "9", "10"] hsame _ (writes_forM _ _ _)

/-! ### Elements of different types -/

/-- The elements without empty lists and maps. -/
def dropEmpty (elements : List AttributeValue) : List AttributeValue :=
  elements.filter fun e => !e.isEmptyContainer

/-- Two elements that are not empty have different types. -/
def IsMixed (elements : List AttributeValue) : Prop :=
  ∃ a ∈ dropEmpty elements, ∃ b ∈ dropEmpty elements, a.tag ≠ b.tag

/-- Elements of one family in which there are sets have one type. -/
theorem tag_eq_of_family {a b : AttributeValue} (h : family a = family b) (hset : family a ≠ .other) :
    a.tag = b.tag := by
  cases a with
  | text _ | number _ | binary _ => cases b <;> first | rfl | cases h
  | _ => exact absurd rfl hset

theorem mem_dropEmpty_of_family {e : AttributeValue} (he : e ∈ elements)
    (h : e.isNull = true ∨ family e ≠ .other) : e ∈ dropEmpty elements := by
  refine List.mem_filter.mpr ⟨he, ?_⟩
  cases e with
  | list items => exact (h.resolve_left Bool.false_ne_true).elim rfl
  | map fields => exact (h.resolve_left Bool.false_ne_true).elim rfl
  | _ => rfl

/-- Mixed elements have no set if one of them can be in a set. -/
theorem setFrom_mixed (hmixed : ∃ a ∈ elements, ∃ b ∈ elements, a.tag ≠ b.tag)
    (hkind : ∃ e ∈ elements, family e ≠ .other) :
    setFrom elements = .error (Cause.invalidSetContents "cannot persist mixed-type set") := by
  obtain ⟨a, ha, b, hb, hne⟩ := hmixed
  have hnone : ∀ kind, ¬ ∀ e ∈ elements, family e = kind := by
    intro kind hall
    obtain ⟨e, he, hset⟩ := hkind
    refine hne (tag_eq_of_family ((hall a ha).trans (hall b hb).symm) ?_)
    rw [hall a ha, ← hall e he]
    exact hset
  rw [setFrom, if_neg (List.ne_nil_of_mem ha), if_neg (hnone _), if_neg (hnone _), if_neg (hnone _),
    if_neg (hnone _)]

/-- Without null, what a set keeps is what is not empty. -/
theorem dropVoid_eq_dropEmpty (h : ∀ e ∈ elements, e.isNull = false) :
    dropVoid elements = dropEmpty elements := by
  refine List.filter_congr fun e he => ?_
  rw [AttributeValue.isVoid, h e he, Bool.false_or]

/-- **What becomes of mixed elements.** In every slot that is free and not in an array, an array that is
marked as a set and into which elements of different types were written is refused if one of them is null
or can be in a set; then the array is gone and nothing else is touched. Otherwise none of them can be in a
set, and those that are not empty become a list, in the order in which they were written. -/
theorem closeMixed_of_free (hfree : w.checkSlot = .ok ()) (hplace : w.isInArray = false)
    (hwrites : Writes calls w true elements) (hmixed : IsMixed elements) :
    ((∃ e ∈ elements, e.isNull = true ∨ family e ≠ .other) →
      ∃ message, (do beginArray true; calls; endArray) w =
        .error (Cause.invalidSetContents message) w) ∧
      ((∀ e ∈ elements, e.isNull = false ∧ family e = .other) →
        (do beginArray true; calls; endArray) w = .ok () (w.fill (.list (dropEmpty elements)))) := by
  rw [array_of_writes hfree hwrites, hplace, closeArray_eq, Bool.not_false, Bool.and_true, if_pos rfl]
  constructor
  · rintro ⟨e, he, hkind⟩
    by_cases hnull : elements.any (·.isNull) = true
    · rw [if_pos hnull]
      exact ⟨_, rfl⟩
    · have hnulls : ∀ e ∈ elements, e.isNull = false := by
        simpa only [List.any_eq_true, not_exists, not_and, Bool.not_eq_true] using hnull
      have hfamily : family e ≠ .other := by
        refine hkind.resolve_left ?_
        rw [hnulls e he]
        exact Bool.false_ne_true
      rw [if_neg hnull, dropVoid_eq_dropEmpty hnulls,
        setFrom_mixed hmixed ⟨e, mem_dropEmpty_of_family he hkind, hfamily⟩]
      exact ⟨_, rfl⟩
  · intro hothers
    have hnull : ¬ elements.any (·.isNull) = true := by
      rw [List.any_eq_true]
      rintro ⟨e, he, hnull⟩
      rw [(hothers e he).1] at hnull
      cases hnull
    have hfamily : ∀ e ∈ dropEmpty elements, family e = .other :=
      fun e he => (hothers e (List.mem_of_mem_filter he)).2
    rw [if_neg hnull, dropVoid_eq_dropEmpty fun e he => (hothers e he).1, setFrom_others hfamily]

/-- A truth value and a text, of which the text can be in a set. -/
def truthAndText : List AttributeValue := [.bool true, .text "a"]

/-- A truth value and a list, neither of which can be in a set. -/
def truthAndList : List AttributeValue := [.bool true, .list [.text "a"]]

theorem isMixed_truthAndText : IsMixed truthAndText :=
  ⟨.bool true, by decide, .text "a", by decide, by decide⟩

theorem isMixed_truthAndList : IsMixed truthAndList :=
  ⟨.bool true, by decide, .list [.text "a"], by decide, by decide⟩

theorem closeMixed_of_free_truth :
    (∃ message, (do beginArray true; truthAndText.forM write; endArray) (new .none) =
      .error (Cause.invalidSetContents message) (new .none)) ∧
      (do beginArray true; truthAndList.forM write; endArray) (new .none) =
        .ok () ((new .none).fill (.list truthAndList)) := by
  constructor
  · refine (closeMixed_of_free rfl rfl (writes_forM _ _ _) isMixed_truthAndText).1 ?_
    exact ⟨.text "a", by decide, .inr (by decide)⟩
  · refine (closeMixed_of_free rfl rfl (writes_forM _ _ _) isMixed_truthAndList).2 ?_
    decide

/-- Not all mixed elements are refused. -/
theorem not_forall_closeMixed :
    ¬ ∀ (w : Writer) (calls : WriterM Unit) (elements : List AttributeValue),
      w.checkSlot = .ok () → w.isInArray = false → Writes calls w true elements → IsMixed elements →
        ∃ message t, (do beginArray true; calls; endArray) w =
          .error (Cause.invalidSetContents message) t := by
  intro h
  obtain ⟨message, t, hrefused⟩ := h (new .none) (truthAndList.forM write) truthAndList rfl rfl
    (writes_forM _ _ _) isMixed_truthAndList
  cases hrefused

end Writer

end ItemMapper
