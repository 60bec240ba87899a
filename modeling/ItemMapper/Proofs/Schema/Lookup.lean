import Mathlib.Data.List.Nodup
import ItemMapper.Proofs.Computation
import ItemMapper.Schema.Document

/-!
# Looking up members

A name means the first member that is declared under it, or else the first that is stored under it.
Where no member is stored under a name of another one, the declared and the stored name of a member
both mean it. The declared names of a document that has a schema are distinct.

## Main definitions

* `Schema.NamesApart`: no member is stored under a name of another one.

## Main statements

* `Schema.lookup?_name`, `Schema.lookup?_storedName`: what the names of a member mean.
* `Schema.lookup?_name_of_nodup`: distinct declared names are found at their own positions.
* `Document.nodup_names`, `Document.lookup?_of_schema`: the names of a document without faults.
-/

namespace ItemMapper

namespace Schema

variable {s : Schema} {options : CodecOptions} {members : List Member} {test : Member → Bool}
  {name : String} {i : Nat} {m : Member}

/-- The first member that satisfies a test. -/
theorem findMember?_eq_some : findMember? members test = some (i, m) ↔
    members[i]? = some m ∧ test m = true ∧
      ∀ (j : Nat) (other : Member), j < i → members[j]? = some other → test other = false := by
  rw [findMember?, Option.bind_eq_some_iff]
  constructor
  · rintro ⟨j, hfound, hmember⟩
    obtain ⟨member, hm, heq⟩ := Option.map_eq_some_iff.mp hmember
    cases heq
    obtain ⟨hi, htest, hbefore⟩ := List.findIdx?_eq_some_iff_getElem.mp hfound
    obtain ⟨_, rfl⟩ := List.getElem?_eq_some_iff.mp hm
    refine ⟨hm, htest, fun j other hj hother => ?_⟩
    obtain ⟨_, rfl⟩ := List.getElem?_eq_some_iff.mp hother
    exact Bool.eq_false_iff.mpr (hbefore j hj)
  · rintro ⟨hm, htest, hbefore⟩
    obtain ⟨hi, rfl⟩ := List.getElem?_eq_some_iff.mp hm
    refine ⟨i, List.findIdx?_eq_some_iff_getElem.mpr ⟨hi, htest, fun j hj => ?_⟩, by rw [hm]; rfl⟩
    exact Bool.eq_false_iff.mp (hbefore j _ hj (List.getElem?_eq_getElem (Nat.lt_trans hj hi)))

theorem exists_findMember? (test : Member → Bool) (hm : members[i]? = some m) (htest : test m = true) :
    ∃ j other, findMember? members test = some (j, other) := by
  have hsome : (members.findIdx? test).isSome = true := by
    rw [List.findIdx?_isSome, List.any_eq_true]
    exact ⟨m, List.mem_of_getElem? hm, htest⟩
  obtain ⟨j, hj⟩ := Option.isSome_iff_exists.mp hsome
  obtain ⟨hlt, -⟩ := List.findIdx?_eq_some_iff_getElem.mp hj
  exact ⟨j, members[j], by
    rw [findMember?, hj, Option.bind_some, List.getElem?_eq_getElem hlt, Option.map_some]⟩

/-- A member is found under a name that it is declared or stored under. -/
theorem mem_of_lookup? (h : s.lookup? name options = some (i, m)) :
    m ∈ s.members ∧ (m.name = name ∨ m.storedName options = name) := by
  rw [lookup?] at h
  cases hdeclared : s.member? name with
  | some declared =>
    rw [hdeclared] at h
    cases h
    obtain ⟨hm, htest, -⟩ := findMember?_eq_some.mp hdeclared
    exact ⟨List.mem_of_getElem? hm, .inl (eq_of_beq htest)⟩
  | none =>
    rw [hdeclared] at h
    obtain ⟨hm, htest, -⟩ := findMember?_eq_some.mp h
    exact ⟨List.mem_of_getElem? hm, .inr (eq_of_beq htest)⟩

/-- Under the stored name of a member some member is found. -/
theorem exists_lookup? (options : CodecOptions) (hm : m ∈ s.members) :
    ∃ entry, s.lookup? (m.storedName options) options = some entry := by
  rw [lookup?]
  cases s.member? (m.storedName options) with
  | some declared => exact ⟨declared, rfl⟩
  | none =>
    obtain ⟨i, hi⟩ := List.mem_iff_getElem?.mp hm
    obtain ⟨j, other, hfound⟩ := exists_findMember?
      (fun other => other.storedName options == m.storedName options) hi (beq_self_eq_true _)
    exact ⟨(j, other), hfound⟩

/-- No member is stored under a name, declared or stored, of another one. -/
def NamesApart (s : Schema) (options : CodecOptions) : Prop :=
  ∀ (i j : Nat) (m other : Member), s.members[i]? = some m → s.members[j]? = some other →
    m.storedName options = other.name ∨ m.storedName options = other.storedName options → i = j

theorem namesApart_iff : s.NamesApart options ↔ ∀ i j : Fin s.members.length,
    s.members[i].storedName options = s.members[j].name ∨
      s.members[i].storedName options = s.members[j].storedName options → i = j := by
  constructor
  · intro h i j hname
    exact Fin.ext (h i j _ _ (List.getElem?_eq_getElem i.isLt) (List.getElem?_eq_getElem j.isLt) hname)
  · intro h i j m other hm hother hname
    obtain ⟨hi, rfl⟩ := List.getElem?_eq_some_iff.mp hm
    obtain ⟨hj, rfl⟩ := List.getElem?_eq_some_iff.mp hother
    exact congrArg Fin.val (h ⟨i, hi⟩ ⟨j, hj⟩ hname)

instance : Decidable (s.NamesApart options) := decidable_of_iff' _ namesApart_iff

/-- The declared name of a member means the first member that is declared under it. -/
theorem lookup?_name (h : s.member? name = some (i, m)) : s.lookup? name options = some (i, m) := by
  rw [lookup?, h]

/-- **The stored name of a member means it**, where no other member has this name. -/
theorem lookup?_storedName (happart : s.NamesApart options) (h : s.member? name = some (i, m)) :
    s.lookup? (m.storedName options) options = some (i, m) := by
  obtain ⟨hm, -, -⟩ := findMember?_eq_some.mp h
  rw [lookup?]
  cases hdeclared : s.member? (m.storedName options) with
  | some found =>
    obtain ⟨j, other⟩ := found
    obtain ⟨hother, hname, -⟩ := findMember?_eq_some.mp hdeclared
    obtain rfl := happart i j m other hm hother (.inl (eq_of_beq hname).symm)
    cases hm.symm.trans hother
    rfl
  | none =>
    obtain ⟨j, other, hfound⟩ := exists_findMember?
      (fun other => other.storedName options == m.storedName options) hm (beq_self_eq_true _)
    obtain ⟨hother, hname, -⟩ := findMember?_eq_some.mp hfound
    obtain rfl := happart i j m other hm hother (.inr (eq_of_beq hname).symm)
    cases hm.symm.trans hother
    exact hfound

/-- Distinct declared names are found at their own positions. -/
theorem lookup?_name_of_nodup (hnames : (s.members.map (·.name)).Nodup)
    (hm : s.members[i]? = some m) : s.lookup? m.name options = some (i, m) := by
  refine lookup?_name (findMember?_eq_some.mpr ⟨hm, beq_self_eq_true _, fun j other hj hother => ?_⟩)
  obtain ⟨hi, rfl⟩ := List.getElem?_eq_some_iff.mp hm
  obtain ⟨hlt, rfl⟩ := List.getElem?_eq_some_iff.mp hother
  refine beq_false_of_ne fun hsame => Nat.ne_of_lt hj ?_
  have hfirst : j < (s.members.map (·.name)).length := by simpa using hlt
  have hsecond : i < (s.members.map (·.name)).length := by simpa using hi
  have hnamed : (s.members.map (·.name))[j] = (s.members.map (·.name))[i] := by
    rw [List.getElem_map, List.getElem_map, hsame]
  exact hnames.getElem_inj_iff.mp hnamed

end Schema

namespace Document

theorem repeated_eq_nil {seen names : List String} (h : repeated seen names = []) :
    names.Nodup ∧ ∀ name ∈ names, name ∉ seen := by
  induction names generalizing seen with
  | nil => exact ⟨List.nodup_nil, fun name hname => absurd hname List.not_mem_nil⟩
  | cons name rest ih =>
    rw [repeated] at h
    split at h
    · cases h
    · rename_i hnew
      obtain ⟨hrest, hseen⟩ := ih h
      have hname : name ∉ seen := fun hmem => hnew (List.contains_iff_mem.mpr hmem)
      refine ⟨List.nodup_cons.mpr ⟨fun hmem => hseen name hmem List.mem_cons_self, hrest⟩, ?_⟩
      intro other hother
      rcases List.mem_cons.mp hother with rfl | hother
      · exact hname
      · exact fun hmem => hseen other hother (List.mem_cons_of_mem _ hmem)

/-- **The members of a document without faults have distinct names.** -/
theorem nodup_names {d : Document} (h : d.check = .ok ()) : (d.fields.map (·.name)).Nodup := by
  rw [check] at h
  split at h
  · rename_i hempty
    rw [List.isEmpty_iff, allFaults, List.append_eq_nil_iff, List.map_eq_nil_iff] at hempty
    exact (repeated_eq_nil hempty.2).1
  · cases h

/-- A member of a document without faults is found under its declared name. -/
theorem lookup?_of_schema {d : Document} {typeName : Ty → String} {schema : Schema} {i : Nat}
    {m : Member} (h : d.schema typeName = .ok schema) (hm : schema.members[i]? = some m)
    (options : CodecOptions) : schema.lookup? m.name options = some (i, m) := by
  obtain ⟨_, hcheck, heq⟩ := except_bind_eq_ok.mp h
  cases heq
  refine Schema.lookup?_name_of_nodup ?_ hm
  rw [List.map_map]
  exact nodup_names hcheck

end Document

end ItemMapper
