import ItemMapper.Codec.Decoding
import ItemMapper.Proofs.Values.Fields

/-!
# Places in attribute values

A path leads from an attribute value to a part of it: a name to what a map holds under it, and a position
to an item of a list or a member of a set.

## Main definitions

* `AttributeValue.child?`: the part that one segment leads to.
* `AttributeValue.follow?`: the part that a path leads to.
-/

namespace ItemMapper.AttributeValue

/-- The part that one segment of a path leads to. -/
def child? (v : AttributeValue) : PathSegment → Option AttributeValue
  | .field name => v.asMap?.bind (·.get? name)
  | .index position => v.elements?.bind (·[position]?)

/-- The part that a path leads to. -/
def follow? (v : AttributeValue) : List PathSegment → Option AttributeValue
  | [] => some v
  | segment :: rest => (v.child? segment).bind (·.follow? rest)

variable {v part : AttributeValue} {segment : PathSegment}

theorem follow?_cons (h : v.child? segment = some part) (rest : List PathSegment) :
    v.follow? (segment :: rest) = part.follow? rest := by
  rw [follow?, h, Option.bind_some]

theorem eq_map_of_asMap? {fields : Item} (h : v.asMap? = some fields) : v = map fields := by
  cases v with
  | map => exact congrArg map (Option.some.inj h)
  | _ => cases h

theorem exists_child?_of_mem {items : List AttributeValue} (h : part ∈ items) :
    ∃ position, (list items).child? (.index position) = some part := by
  obtain ⟨position, hposition⟩ := List.getElem?_of_mem h
  exact ⟨position, hposition⟩

theorem child?_of_mem_fields {fields : List (String × AttributeValue)} {name : String}
    (hkeys : Fields.Ascending fields) (h : (name, part) ∈ fields) :
    (map fields).child? (.field name) = some part :=
  hkeys.get?_eq_some_iff.mpr h

end ItemMapper.AttributeValue
