import Mathlib.Data.List.DropRight
import ItemMapper.Key.Building
import ItemMapper.Proofs.Bytes.Base64
import ItemMapper.Proofs.Bytes.Percent
import ItemMapper.Proofs.Computation

/-!
# The text of a key is read back

A vertical bar stands between the values of a key and never within one, because the escapes leave none.
So the text of a key falls into as many parts as the key has values, and each part is read as the value
it was made of. A value has to be one that a text can stand for: it is not empty, and a number is written
as a finite number without blanks around it. Reading gives no other values, and so every text that is
read at all gives a key whose own text gives it again.

## Main definitions

* `KeyValue.Fits`: the values of a type that a text can stand for.
* `PrimaryKey.Fits`: the keys of a table that a text can stand for.

## Main statements

* `PrimaryKey.parse_text`: the keys that fit are read back from their texts.
* `PrimaryKey.fits_of_parse`: no other keys are ever read.
* `PrimaryKey.text_roundTrip`: both at once, and that no two keys that fit have one text.
-/

namespace ItemMapper

/-! ### Trimming and splitting -/

namespace Unicode

/-- Trimming what is trimmed changes nothing: its first character is that of a list without blanks at
its front, its last that of a list without blanks at its end. -/
theorem trimChars_trimChars (cs : List Char) : trimChars (trimChars cs) = trimChars cs := by
  have hfront : (trimChars cs).dropWhile isBlank = trimChars cs := by
    rw [List.dropWhile_eq_self_iff]
    intro hlt
    have hfront : trimChars cs <+: cs.dropWhile isBlank := List.rdropWhile_prefix isBlank _
    rw [hfront.getElem hlt]
    exact List.dropWhile_get_zero_not isBlank cs (hlt.trans_le hfront.length_le)
  calc trimChars (trimChars cs)
      = ((trimChars cs).dropWhile isBlank).rdropWhile isBlank := rfl
    _ = (trimChars cs).rdropWhile isBlank := by rw [hfront]
    _ = trimChars cs := List.rdropWhile_idempotent isBlank _

theorem trim_trim (text : String) : trim (trim text) = trim text := by
  rw [trim, trim, String.toList_ofList, trimChars_trimChars]

end Unicode

namespace PrimaryKey

variable {mark : Char}

/-- A text without the mark is one part. -/
theorem splitAt_of_not_mem (current : List Char) {xs : List Char} (h : mark ∉ xs) :
    splitAt mark current xs = [current.reverse ++ xs] := by
  induction xs generalizing current with
  | nil => rw [splitAt, List.append_nil]
  | cons c xs ih =>
    obtain ⟨hne, hrest⟩ := not_or.mp (mt List.mem_cons.mpr h)
    rw [splitAt, if_neg (Ne.symm hne), ih _ hrest, List.reverse_cons, List.append_assoc,
      List.singleton_append]

/-- The first part ends at the first mark. -/
theorem splitAt_append (current : List Char) {xs : List Char} (h : mark ∉ xs) (ys : List Char) :
    splitAt mark current (xs ++ mark :: ys) = (current.reverse ++ xs) :: splitAt mark [] ys := by
  induction xs generalizing current with
  | nil => rw [List.nil_append, splitAt, if_pos rfl, List.append_nil]
  | cons c xs ih =>
    obtain ⟨hne, hrest⟩ := not_or.mp (mt List.mem_cons.mpr h)
    rw [List.cons_append, splitAt, if_neg (Ne.symm hne), ih _ hrest, List.reverse_cons,
      List.append_assoc, List.singleton_append]

end PrimaryKey

/-! ### The values of keys -/

/-- The values of a type that a text can stand for: texts and byte strings that are not empty, and
numbers that are finite and have no blanks around them. -/
inductive KeyValue.Fits : ScalarType → KeyValue → Prop
  | text {value : String} (nonempty : value ≠ "") : Fits .text (.text value)
  | number {digits : String} {value : Floating} (trimmed : Unicode.trim digits = digits)
      (read : Floating.readDouble? digits = some value) (finite : value.isFinite = true) :
      Fits .number (.number digits)
  | binary {bytes : Bytes} (nonempty : bytes ≠ []) : Fits .binary (.binary bytes)

namespace KeyValue

/-- A value that fits is read back from its text. -/
theorem ofText_display {type : ScalarType} {value : KeyValue} (h : Fits type value) :
    ofText type value.display = .ok value := by
  cases h with
  | text _ => rfl
  | number trimmed read finite =>
    simp only [ofText, display, trimmed, read, finite, if_true]
  | binary _ => simp only [ofText, display, Base64.decode_encode]

/-- A value that is read from a text that is not empty fits. -/
theorem fits_of_ofText {type : ScalarType} {source : String} {value : KeyValue}
    (hsource : source ≠ "") (h : ofText type source = .ok value) : Fits type value := by
  cases type with
  | text =>
    cases h
    exact .text hsource
  | number =>
    simp only [ofText] at h
    split at h
    · rename_i x hread
      split at h
      · rename_i hfinite
        cases h
        exact .number (Unicode.trim_trim source) hread hfinite
      · cases h
    · cases h
  | binary =>
    simp only [ofText] at h
    split at h
    · rename_i bytes hdecode
      cases h
      refine .binary fun hempty => hsource ?_
      rw [hempty] at hdecode
      exact Base64.eq_nil_of_decode hdecode
    · cases h

/-- The text of a value that fits is not empty. -/
theorem display_ne_empty {type : ScalarType} {value : KeyValue} (h : Fits type value) :
    value.display ≠ "" := by
  cases h with
  | text nonempty => exact nonempty
  | number trimmed read finite =>
    rintro rfl
    cases read
  | @binary bytes nonempty =>
    intro hempty
    have hread : Base64.decode (Base64.encode bytes) = .ok bytes := Base64.decode_encode bytes
    rw [show Base64.encode bytes = Base64.encode [] from hempty, Base64.decode_encode] at hread
    exact nonempty (Except.ok.inj hread).symm

end KeyValue

/-! ### The parts of a text -/

namespace PrimaryKey

variable {options : CodecOptions}

/-- The values of a member that a text can stand for. -/
def MemberFits (options : CodecOptions) (member : Member) (value : KeyValue) : Prop :=
  ∃ type, declaredType options member = .ok type ∧ value.Fits type

/-- The keys of a table that a text can stand for: a value that fits for each member of the table's
key. -/
structure Fits (options : CodecOptions) (d : TableDescriptor) (key : PrimaryKey) : Prop where
  partition : MemberFits options d.partitionMember key.partition
  sort : Option.Rel (MemberFits options) d.sortMember? key.sort

theorem bar_not_mem_component (value : KeyValue) : '|' ∉ (component value).toList :=
  Percent.bar_not_mem_encode _

/-- The escaped text of a value that fits is read as the value. -/
theorem parseComponent_component {malformed : String → Error} {member : Member} {value : KeyValue}
    (h : MemberFits options member value) :
    parseComponent options malformed member (component value).toList = .ok value := by
  obtain ⟨type, htype, hfits⟩ := h
  have hnonempty : (component value).toList ≠ [] := fun hnil =>
    KeyValue.display_ne_empty hfits (utf8_eq_nil (Percent.eq_nil_of_encode hnil))
  have hdecoded : Utf8.decode (Percent.decode (utf8 (String.ofList (component value).toList))) =
      .ok value.display := by
    rw [String.ofList_toList, component, Percent.decode_utf8_encode, Utf8.decode_utf8]
  rw [parseComponent, if_neg (mt List.isEmpty_iff.mp hnonempty), hdecoded]
  exact except_bind_eq_ok.mpr ⟨type, htype, by rw [KeyValue.ofText_display hfits, Except.mapError]⟩

/-- A value that is read from a part of a text fits: what stands for a part that is not empty is not
empty. -/
theorem fits_of_parseComponent {malformed : String → Error} {member : Member} {raw : List Char}
    {value : KeyValue} (h : parseComponent options malformed member raw = .ok value) :
    MemberFits options member value := by
  rw [parseComponent] at h
  split at h
  · cases h
  · rename_i hraw
    split at h
    · cases h
    · rename_i decoded hdecoded
      obtain ⟨type, htype, h⟩ := except_bind_eq_ok.mp h
      have hread : KeyValue.ofText type decoded = .ok value := by
        cases hread : KeyValue.ofText type decoded with
        | error reason =>
          rw [hread] at h
          cases h
        | ok read =>
          rw [hread] at h
          cases h
          rfl
      refine ⟨type, htype, KeyValue.fits_of_ofText ?_ hread⟩
      rintro rfl
      have hbytes := Percent.eq_nil_of_decode (Utf8.eq_nil_of_decode hdecoded)
      have hchars : raw = [] := by
        rw [← String.toList_ofList (l := raw), utf8_eq_nil hbytes, String.toList_empty]
      exact hraw (List.isEmpty_iff.mpr hchars)

/-! ### Keys -/

theorem text_none (partition : KeyValue) :
    (text ⟨partition, none⟩).toList = (component partition).toList := by
  rw [text, String.append_empty]

theorem text_some (partition sort : KeyValue) :
    (text ⟨partition, some sort⟩).toList =
      (component partition).toList ++ '|' :: (component sort).toList := by
  rw [text, String.toList_append, String.toList_append]
  rfl

/-- The keys that fit are read back from their texts. -/
theorem parse_text {d : TableDescriptor} {key : PrimaryKey} (h : Fits options d key) :
    parse options d key.text = .ok key := by
  obtain ⟨partition, sort⟩ := key
  obtain ⟨hpartition, hsort⟩ := h
  cases hmember : d.sortMember? with
  | none =>
    rw [hmember] at hsort
    cases hsort
    have hparts : splitAt '|' [] (text ⟨partition, none⟩).toList =
        [(component partition).toList] := by
      rw [text_none, splitAt_of_not_mem [] (bar_not_mem_component partition), List.reverse_nil,
        List.nil_append]
    simp only [parse, hmember, hparts]
    exact except_bind_eq_ok.mpr ⟨partition, parseComponent_component hpartition, rfl⟩
  | some member =>
    rw [hmember] at hsort
    cases hsort with
    | @some _ sort hsort =>
      have hparts : splitAt '|' [] (text ⟨partition, some sort⟩).toList =
          [(component partition).toList, (component sort).toList] := by
        rw [text_some, splitAt_append [] (bar_not_mem_component partition),
          splitAt_of_not_mem [] (bar_not_mem_component sort), List.reverse_nil, List.nil_append,
          List.nil_append]
      simp only [parse, hmember, hparts]
      exact except_bind_eq_ok.mpr ⟨partition, parseComponent_component hpartition,
        except_bind_eq_ok.mpr ⟨sort, parseComponent_component hsort, rfl⟩⟩

/-- No other keys are ever read. -/
theorem fits_of_parse {d : TableDescriptor} {source : String} {key : PrimaryKey}
    (h : parse options d source = .ok key) : Fits options d key := by
  simp only [parse] at h
  split at h
  · rename_i hmember _
    obtain ⟨partition, hpartition, h⟩ := except_bind_eq_ok.mp h
    cases h
    exact ⟨fits_of_parseComponent hpartition, hmember ▸ .none⟩
  · rename_i member _ _ hmember _
    obtain ⟨partition, hpartition, h⟩ := except_bind_eq_ok.mp h
    obtain ⟨sort, hsort, h⟩ := except_bind_eq_ok.mp h
    cases h
    exact ⟨fits_of_parseComponent hpartition, hmember ▸ .some (fits_of_parseComponent hsort)⟩
  · cases h

/-- The keys that fit are read back from their texts, so that no two of them have one text, and only
such keys are read, so that the text of a key that was read gives the key again. -/
theorem text_roundTrip (options : CodecOptions) (d : TableDescriptor) :
    (∀ key, Fits options d key → parse options d key.text = .ok key) ∧
      (∀ x y, Fits options d x → Fits options d y → x.text = y.text → x = y) ∧
      ∀ source key, parse options d source = .ok key →
        Fits options d key ∧ parse options d key.text = .ok key := by
  refine ⟨fun key => parse_text, fun x y hx hy htext => ?_, fun source key h => ?_⟩
  · have hread : parse options d x.text = .ok x := parse_text hx
    rw [htext, parse_text hy] at hread
    exact (Except.ok.inj hread).symm
  · have hfits : Fits options d key := fits_of_parse h
    exact ⟨hfits, parse_text hfits⟩

/-- A table whose keys consist of a text and a byte string. -/
def sampleChunks : TableDescriptor where
  schema := ⟨"Chunk",
    [⟨"name", none, [⟨.primary, .partition, 0, none⟩], false, none, none, ⟨"String", .text, none, none⟩⟩,
     ⟨"part", none, [⟨.primary, .sort, 0, none⟩], false, none, none, ⟨"Bytes", .binary, none, none⟩⟩]⟩
  partition := 0
  sort := some 1
  version := none
  locals := List.replicate maxLocalIndexes .empty
  globals := List.replicate maxGlobalIndexes .empty

/-- A key with a bar, a percent sign, a character that is not ASCII and a control. -/
def sampleChunk : PrimaryKey := ⟨.text "a|b%é\n", some (.binary [0, 255])⟩

theorem sampleChunk_fits : Fits CodecOptions.initial sampleChunks sampleChunk where
  partition := ⟨.text, rfl, .text (by decide)⟩
  sort := .some ⟨.binary, rfl, .binary (by decide)⟩

theorem text_roundTrip_sampleChunk :
    TableDescriptor.ofSchema sampleChunks.schema = .ok sampleChunks ∧
      Fits CodecOptions.initial sampleChunks sampleChunk ∧
      sampleChunk.text = "a%7Cb%25%C3%A9%0A|AP8=" ∧
      parse CodecOptions.initial sampleChunks sampleChunk.text = .ok sampleChunk :=
  ⟨by decide, sampleChunk_fits, by decide +kernel,
    (text_roundTrip CodecOptions.initial sampleChunks).1 sampleChunk sampleChunk_fits⟩

end PrimaryKey

end ItemMapper
