import ItemMapper.Schema.Document

/-!
# Sample hooks

Hooks of an application: some change texts, some put values into lists and take them out again, and
some refuse every value.

## Main definitions

* `Sample.onText`: a hook that changes texts.
* `Sample.reverse`, `Sample.unbang`, `Sample.unwrap`, `Sample.refuse`: hooks for reading.
* `Sample.wrap`, `Sample.nullify`, `Sample.refuseWrite`: hooks for writing.
-/

namespace ItemMapper.Sample

/-- Changes texts and leaves other values. -/
def onText (change : String → Except Error String) : WriteHook
  | .text s => (change s).map .text
  | other => .ok other

theorem onText_size_le (change : String → Except Error String) (v w : AttributeValue)
    (h : onText change v = .ok w) : w.size ≤ v.size := by
  cases v with
  | text s =>
    match hs : change s with
    | .ok t =>
      simp only [onText, hs, Except.map, Except.ok.injEq] at h
      subst h
      simp [AttributeValue.size]
    | .error e => simp [onText, hs, Except.map] at h
  | _ =>
    simp only [onText, Except.ok.injEq] at h
    subst h
    exact Nat.le_refl _

/-- The text from its end to its start. -/
def reversed (s : String) : Except Error String := .ok (String.ofList s.toList.reverse)

/-- The text with an exclamation mark after it. -/
def banged (s : String) : Except Error String := .ok (s ++ "!")

/-- The text without the exclamation mark after it, which has to be there. -/
def unbanged (s : String) : Except Error String :=
  match s.toList.reverse with
  | '!' :: rest => .ok (String.ofList rest.reverse)
  | _ => .error (Cause.custom s!"no bang in '{s}'")

/-- Turns texts around. -/
def reverse : ReadHook := ⟨onText reversed, onText_size_le reversed⟩

/-- Takes an exclamation mark off texts. -/
def unbang : ReadHook := ⟨onText unbanged, onText_size_le unbanged⟩

/-- Puts the value into a list. -/
def wrap : WriteHook := fun value => .ok (.list [value])

/-- The element of a list of one. -/
def unwrapped : WriteHook
  | .list [inner] => .ok inner
  | other => .error (Error.typeMismatch "wrapped value" other)

theorem unwrapped_size_le (v w : AttributeValue) (h : unwrapped v = .ok w) : w.size ≤ v.size := by
  unfold unwrapped at h
  split at h
  · simp only [Except.ok.injEq] at h
    subst h
    simp only [AttributeValue.size, AttributeValue.sizeItems]
    omega
  · simp at h

/-- Takes the value out of a list of one. -/
def unwrap : ReadHook := ⟨unwrapped, unwrapped_size_le⟩

/-- Makes every value null. -/
def nullify : WriteHook := fun _ => .ok (.null true)

/-- Writes no value. -/
def refuseWrite : WriteHook := fun _ => .error (Cause.custom "refused")

/-- Reads no value. -/
def refuse : ReadHook := ⟨refuseWrite, fun _ _ h => by simp [refuseWrite] at h⟩

end ItemMapper.Sample
