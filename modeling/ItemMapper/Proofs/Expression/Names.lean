import Mathlib
import ItemMapper.Error
import ItemMapper.Expression.Reserved

/-!
# Names that need no placeholder

A name that stands as it is has letters, digits and underscores only, and it is no reserved word in
letters of either case.

## Main statements

* `all_isNameChar_of_needsAlias`: its characters.
* `sameIgnoringCase_of_needsAlias`: it is no reserved word.
-/

namespace ItemMapper

/-- Words that differ in the case of letters only have the same upper case. -/
theorem map_toUpper_of_sameIgnoringCase {a b : String} (h : sameIgnoringCase a b = true) :
    b.map Char.toUpper = a.map Char.toUpper := by
  rw [sameIgnoringCase, beq_iff_eq, lowerAscii, lowerAscii] at h
  have hfold : ∀ text : String,
      (text.map Char.toLower).map Char.toUpper = text.map Char.toUpper := by
    intro text
    rw [← String.toList_inj, String.toList_map, String.toList_map, String.toList_map, List.map_map]
    exact List.map_congr_left fun c _ => Char.toUpper_toLower_eq_toUpper c
  rw [← hfold, ← h, hfold]

/-- The characters of a name that needs no placeholder. -/
theorem all_isNameChar_of_needsAlias {word : String} (h : needsAlias word = false) :
    word.toList ≠ [] ∧ word.toList.all isNameChar = true := by
  unfold needsAlias at h
  split at h
  · cases h
  · rename_i c rest heq
    rw [Bool.or_eq_false_iff, Bool.or_eq_false_iff, Bool.not_eq_false'] at h
    rw [heq]
    exact ⟨nofun, h.1.2⟩

/-- **A name that needs no placeholder is no reserved word**, in letters of either case. -/
theorem sameIgnoringCase_of_needsAlias {word keyword : String} (h : needsAlias word = false)
    (hreserved : keyword ∈ reservedWords) (hupper : keyword.map Char.toUpper = keyword) :
    sameIgnoringCase keyword word = false := by
  rw [← Bool.not_eq_true]
  intro hsame
  have hword : isReserved word = true := by
    rw [isReserved, map_toUpper_of_sameIgnoringCase hsame, hupper, List.contains_iff_mem]
    exact hreserved
  unfold needsAlias at h
  split at h
  · cases h
  · rw [hword, Bool.or_true] at h
    cases h

end ItemMapper
