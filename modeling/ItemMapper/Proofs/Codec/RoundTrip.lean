import Mathlib
import ItemMapper.Proofs.Codec.Items
import ItemMapper.Proofs.Codec.Reading
import ItemMapper.Proofs.Codec.Vanishing
import ItemMapper.Proofs.Values.Reordering
import ItemMapper.Proofs.Values.Sets
import ItemMapper.Sample.Catalogue

/-!
# Round trips

A value in which nothing vanishes is read back from what it is stored as, inside another value and
as an item of its own, whatever the options say about nulls and defaults: what they leave out is what
reading puts back. The sets and the maps in it may be visited in any order when it is written; reading
puts them in order.

## Main statements

* `Codec.Visits.eq_of_isVoid`: what vanishes is visited in one way only.
* `Codec.decode_piece`: reading what a value is stored as inside another one.
* `Codec.decodeMember_of_stores`: reading a member from an item that stores it.
* `Codec.fromItem_toItem`: reading the item of a document of a plain family.
-/

namespace ItemMapper

namespace Codec

variable {c : Codec} {family : DocumentId → Prop}

/-- A member is read from an item that stores it: from what it is stored as, or as what it holds at
first where nothing is stored of it. What is true of both is true of what is read. -/
theorem exists_decodeMember (h : c.Restorable family) {id : DocumentId} (hid : family id)
    {f : Field} (hf : f ∈ (c.documents id).fields) {value : Datum}
    (hkey : isKey f = true → ¬ c.Vanishes f.type value)
    (hwritten : c.keepsMember f value = true → ∃ piece, c.piece? false f.type value = some piece)
    {item : Item} (hstores : c.Stores item f value) {R : Datum → Prop}
    (hpiece : ∀ piece, c.piece? false f.type value = some piece →
      ∃ read, c.decode f.type piece = .ok read ∧ R read)
    (hinitial : c.LeavesNothing f value → R f.initial) :
    ∃ read, c.decodeMember item f = .ok read ∧ R read := by
  simp only [decodeMember_eq_ok (h.onRead id hid f hf)]
  cases hget : item.get? (c.storedName f) with
  | some written =>
    obtain ⟨keep, -, hstored⟩ := hstores
    rw [hget, eq_comm, Option.filter_eq_some_iff] at hstored
    obtain ⟨read, hdecode, hread⟩ := hpiece written (stored?_eq_some.mp hstored.1).2
    exact ⟨read, .inl ⟨written, rfl, hdecode⟩, hread⟩
  | none =>
    have hnothing := hstores.leavesNothing hget
    refine ⟨f.initial, .inr ⟨rfl, ?_, rfl⟩, hinitial hnothing⟩
    rw [Bool.eq_false_iff]
    intro hisKey
    have hkept : c.keepsMember f value = true := keepsMember_of_isKey hisKey value
    obtain ⟨piece, hpiece⟩ := hwritten hkept
    exact hkey hisKey (vanishes_of_piece h (h.types id hid f hf) hpiece
      (hnothing piece (stored?_eq_some.mpr ⟨hkept, hpiece⟩)))

/-! ### Orders of visiting -/

/-- The entries of a map are stored in the order of their keys, in whatever order they are visited, if all
of them stay. -/
theorem exists_orderedPieces {inner : Ty} {order visited : List (String × Datum)}
    (hascending : Fields.Ascending order) (hperm : order.Perm visited)
    {pieces : List (String × AttributeValue)} (hpieces : c.entryPieces? inner visited = some pieces)
    (hstays : ∀ entry ∈ pieces, entry.2.isVoid = false) :
    ∃ ordered, c.entryPieces? inner order = some ordered ∧
      Writer.compactMembers .none [] false (Fields.ofList pieces) = ordered := by
  obtain ⟨ordered, hordered, hsame⟩ := forall₂_perm_left hperm.symm (entryPieces?_eq_some.mp hpieces)
  rw [← entryPieces?_eq_some] at hordered
  have hascends : Fields.Ascending ordered := ascending_of_entryPieces? hascending hordered
  refine ⟨ordered, hordered, ?_⟩
  rw [← Fields.ofList_of_perm hsame.symm hascends.nodup]
  exact compactMembers_of_stays hascends fun entry hentry => hstays entry (hsame.mem_iff.mpr hentry)

namespace Visits

variable {type : Ty} {value visited : Datum} {piece : AttributeValue}

/-- A value may be visited as it is. -/
theorem refl (h : c.HasType type value) : c.Visits type value value := by
  induction h with
  | scalar => exact .scalar _ _
  | enumeration => exact .enumeration _ _
  | absent inner => exact .absent inner
  | present _ ih => exact .present ih
  | boxed _ ih => exact .boxed ih
  | list _ ih => exact .list rfl (forall_mem_zip_self.mpr ih)
  | set hashed _ _ ih => exact .set hashed rfl (forall_mem_zip_self.mpr ih) (.refl _)
  | map hashed _ _ ih => exact .map hashed rfl (forall_mem_zip_self.mpr ih) (.refl _)
  | document _ _ ih => exact .document rfl (forall_mem_zip_zip_self.mpr ih)
  | oneOf known _ _ ih => exact .oneOf known rfl (forall_mem_zip_zip_self.mpr ih)

/-- Nothing is visited differently of what counts as null. -/
theorem eq_of_isNull (h : c.Visits type value visited) (hnull : visited.isNull = true) :
    value = visited := by
  induction h with
  | scalar | enumeration | absent => rfl
  | present _ ih => exact congrArg _ (ih hnull)
  | boxed _ ih => exact congrArg _ (ih hnull)
  | list | set | map | document | oneOf => cases hnull

/-- Nothing is visited differently of what counts as a default. -/
theorem eq_of_isDefault (h : c.Visits type value visited) (hdefault : visited.isDefault = true) :
    value = visited := by
  induction h with
  | scalar | enumeration | absent => rfl
  | present | document | oneOf => cases hdefault
  | boxed _ ih => exact congrArg _ (ih hdefault)
  | list length =>
    obtain rfl := List.isEmpty_iff.mp hdefault
    rw [List.length_eq_zero_iff.mp length]
  | set hashed length _ perm =>
    obtain rfl := List.isEmpty_iff.mp hdefault
    obtain rfl := perm.eq_nil
    rw [List.length_eq_zero_iff.mp length]
  | map hashed keys _ perm =>
    obtain rfl := List.isEmpty_iff.mp hdefault
    obtain rfl := perm.eq_nil
    rw [List.map_eq_nil_iff.mp keys]

/-- A member that is left out, or is written as null or as an empty container, is visited only as it is,
if this is so in the second case. -/
theorem eq_of_leavesNothing {f : Field} (h : c.Visits f.type value visited)
    (hwritten : c.keepsMember f visited = true →
      ∃ piece, c.piece? false f.type visited = some piece)
    (hnothing : c.LeavesNothing f visited)
    (ih : ∀ piece, c.piece? false f.type visited = some piece → piece.isVoid = true →
      value = visited) : value = visited := by
  rcases hnothing.isNull_or_isDefault_or_isVoid hwritten with
    hnull | ⟨-, hdefault⟩ | ⟨piece, hpiece, hvoid⟩
  · exact h.eq_of_isNull hnull
  · exact h.eq_of_isDefault hdefault
  · exact ih piece hpiece hvoid

/-- A value in which nothing vanishes, and which itself is written as null or as an empty container, is
visited only as it is. -/
theorem eq_of_isVoid (hvisits : c.Visits type value visited) (h : c.Restorable family)
    (htype : c.KeepsStored family type) (hvalue : c.HasType type value)
    (hstays : c.NothingVanishes type visited) (hpiece : c.piece? false type visited = some piece)
    (hvoid : piece.isVoid = true) : value = visited := by
  induction hvisits generalizing piece with
  | scalar | enumeration | absent => rfl
  | @present inner value visited held ih =>
    have hinner : c.KeepsStored family inner := htype
    cases hstays with
    | present stays inside => exact absurd (vanishes_of_isVoid h hinner inside hpiece hvoid) stays
  | boxed held ih =>
    cases hstays with
    | boxed inside =>
      cases hvalue with
      | boxed hpointee => exact congrArg _ (ih htype hpointee inside hpiece hvoid)
  | @list inner items visited length held ih =>
    have hinner : c.KeepsStored family inner := htype
    cases hstays with
    | list stays inside =>
      rw [piece?] at hpiece
      obtain rfl := items_eq_nil_of_isVoid h hinner stays inside hpiece hvoid
      rw [List.length_eq_zero_iff.mp length]
  | @set hashed inner items order visited length held perm ih =>
    have hinner : c.KeepsStored family inner := htype
    cases hstays with
    | set stays inside =>
      rw [piece?] at hpiece
      obtain rfl := items_eq_nil_of_isVoid h hinner stays inside hpiece hvoid
      obtain rfl := perm.eq_nil
      rw [List.length_eq_zero_iff.mp length]
  | @map hashed inner entries order visited keys held perm ih =>
    have hinner : c.KeepsStored family inner := htype
    cases hstays with
    | map stays inside =>
      cases hvalue with
      | map _ _ ascending =>
        rw [piece?] at hpiece
        obtain ⟨pieces, hpieces, rfl⟩ := Option.map_eq_some_iff.mp hpiece
        obtain ⟨ordered, hordered, hcompact⟩ := exists_orderedPieces (ascending.of_keys keys.symm)
          perm hpieces (entry_stays h hinner stays hpieces)
        rw [hcompact] at hvoid
        obtain rfl := eq_nil_of_isVoid_map hvoid
        cases entryPieces?_eq_some.mp hordered
        rw [← perm.nil_eq, List.map_eq_nil_iff.mp keys]
  | @document id members visited length held ih =>
    cases hstays with
    | document stays inside =>
      cases hvalue with
      | document hlength hmembers =>
        rw [piece?] at hpiece
        obtain ⟨u, hcheck, hpiece⟩ := Option.bind_eq_some_iff.mp hpiece
        obtain ⟨pieces, hpieces, rfl⟩ := Option.map_eq_some_iff.mp hpiece
        refine congrArg _ (List.ext_getElem length fun i hm hv => ?_)
        have hf : i < (c.documents id).fields.length := hlength ▸ hm
        have hmember := getElem_mem_zip hf hv
        have hvisit := getElem_mem_zip_zip hf hm hv
        exact (held _ hvisit).eq_of_leavesNothing (exists_piece_of_kept hpieces hmember)
          (leavesNothing_of_isVoid (h.names id htype) hpieces hvoid hmember)
          fun piece hpiece hvoid => ih _ hvisit (h.types id htype _ (List.getElem_mem hf))
            (hmembers _ (getElem_mem_zip hf hm)) (inside _ hmember) hpiece hvoid
  | oneOf known length held ih =>
    rw [oneOf_isVoid h htype known hpiece] at hvoid
    cases hvoid

end Visits

/-! ### Parts of values -/

/-- A member is read back from an item that stores it, if what it is stored as is read back. -/
theorem decodeMember_of_stores (h : c.Plain family) {id : DocumentId} (hid : family id)
    {f : Field} (hf : f ∈ (c.documents id).fields) {value visited : Datum}
    (hvalue : c.HasType f.type value) (hvisits : c.Visits f.type value visited)
    (hstays : c.NothingVanishes f.type visited)
    (hkey : isKey f = true → ¬ c.Vanishes f.type visited)
    (hwritten : c.keepsMember f visited = true →
      ∃ piece, c.piece? false f.type visited = some piece)
    {item : Item} (hstores : c.Stores item f visited)
    (ih : ∀ piece, c.piece? false f.type visited = some piece →
      ∃ read, c.decode f.type piece = .ok read ∧ read.equals value = true) :
    ∃ read, c.decodeMember item f = .ok read ∧ read.equals value = true := by
  have htype := h.types id hid f hf
  have hinitial := h.initial id hid f hf
  refine exists_decodeMember h.restorable hid hf hkey hwritten hstores ih fun hnothing => ?_
  have hkeeps := keepsStored_of_builtFrom htype h.enumNaming
  obtain rfl := hvisits.eq_of_leavesNothing hwritten hnothing fun piece hpiece hvoid =>
    hvisits.eq_of_isVoid h.restorable hkeeps hvalue hstays hpiece hvoid
  exact initial_equals_of_left_out htype hvalue hinitial hwritten hnothing fun piece hpiece hvoid =>
    initial_equals_of_isVoid h htype hvalue hstays hinitial hpiece hvoid

/-- The members of a document are read back from an item that stores them, in whatever order what they
hold is visited. -/
theorem exists_memberReads (h : c.Plain family) {id : DocumentId} (hid : family id)
    {members visited : List Datum} (hlength : (c.documents id).fields.length = members.length)
    (held : ∀ member ∈ (c.documents id).fields.zip members, c.HasType member.1.type member.2)
    (length : members.length = visited.length)
    (hvisits : ∀ member ∈ (c.documents id).fields.zip (members.zip visited),
      c.Visits member.1.type member.2.1 member.2.2)
    (stays : ∀ member ∈ (c.documents id).fields.zip visited, isKey member.1 →
      ¬ c.Vanishes member.1.type member.2)
    (inside : ∀ member ∈ (c.documents id).fields.zip visited,
      c.NothingVanishes member.1.type member.2)
    {pieces : List (Field × AttributeValue)}
    (hpieces : c.memberPieces? (c.documents id).fields visited = some pieces) {item : Item}
    (hstores : ∀ member ∈ (c.documents id).fields.zip visited, c.Stores item member.1 member.2)
    (ih : ∀ member ∈ (c.documents id).fields.zip (members.zip visited),
      member.1.type.BuiltFrom family → c.HasType member.1.type member.2.1 →
      c.NothingVanishes member.1.type member.2.2 → ∀ piece,
      c.piece? false member.1.type member.2.2 = some piece →
        ∃ read, c.decode member.1.type piece = .ok read ∧ read.equals member.2.1 = true) :
    ∃ values, List.Forall₂ (fun f read => c.decodeMember item f = .ok read)
        (c.documents id).fields values ∧ Datum.equalItems values members = true := by
  have hread : List.Forall₂ (fun f value => ∃ read, c.decodeMember item f = .ok read ∧
      read.equals value = true) (c.documents id).fields members := by
    refine List.forall₂_iff_get.mpr ⟨hlength, fun i hf hm => ?_⟩
    have hfield := List.getElem_mem hf
    have hvalue := held _ (getElem_mem_zip hf hm)
    have hmember := getElem_mem_zip hf (length ▸ hm)
    have hvisit := getElem_mem_zip_zip hf hm (length ▸ hm)
    exact decodeMember_of_stores h hid hfield hvalue (hvisits _ hvisit) (inside _ hmember)
      (stays _ hmember) (exists_piece_of_kept hpieces hmember) (hstores _ hmember)
      (ih _ hvisit (h.types id hid _ hfield) hvalue (inside _ hmember))
  obtain ⟨values, hdecoded, hequal⟩ := exists_forall₂ hread
  exact ⟨values, hdecoded, Datum.equalItems_iff.mpr hequal⟩

theorem pieces_stay {inner : Ty} {items : List Datum} {pieces : List AttributeValue}
    (hstays : ∀ item ∈ items, ∀ piece, c.piece? true inner item = some piece →
      piece.isVoid = false) (hpieces : c.itemPieces? inner items = some pieces)
    (piece : AttributeValue) (hpiece : piece ∈ pieces) : piece.isVoid = false := by
  obtain ⟨item, hitem, hof⟩ := exists_of_mem_right (itemPieces?_eq_some.mp hpieces) hpiece
  exact hstays item hitem piece hof

/-- The items of a list are read back from their pieces, if each of them is. -/
theorem exists_reads {inner : Ty} {items visited : List Datum} {pieces : List AttributeValue}
    (ih : List.Forall₂ (fun item visit => ∀ piece, c.piece? true inner visit = some piece →
      ∃ read, c.decode inner piece = .ok read ∧ read.equals item = true) items visited)
    (hpieces : c.itemPieces? inner visited = some pieces) :
    ∃ reads, List.Forall₂ (fun piece read => c.decode inner piece = .ok read) pieces reads ∧
      List.Forall₂ (fun read item => read.equals item = true) reads items := by
  refine exists_forall₂ (List.Forall₂.flip ?_)
  refine (forall₂_of_steps ih (itemPieces?_eq_some.mp hpieces)).imp fun item piece h => ?_
  obtain ⟨visit, hread, hpiece⟩ := h
  exact hread piece hpiece

/-- The members of a set are read back from their pieces, in the order in which they were visited. -/
theorem exists_reads_of_perm {inner : Ty} {items order visited : List Datum}
    {pieces : List AttributeValue}
    (ih : List.Forall₂ (fun item visit => ∀ piece, c.piece? true inner visit = some piece →
      ∃ read, c.decode inner piece = .ok read ∧ read.equals item = true) items order)
    (hperm : order.Perm visited) (hpieces : c.itemPieces? inner visited = some pieces) :
    ∃ reads members, List.Forall₂ (fun piece read => c.decode inner piece = .ok read) pieces reads ∧
      reads.Perm members ∧ List.Forall₂ (fun read item => read.equals item = true) members items := by
  obtain ⟨reordered, hreordered, hsame⟩ := forall₂_perm_left hperm ih.flip
  obtain ⟨reads, hreads, hequal⟩ := exists_reads hreordered.flip hpieces
  obtain ⟨members, hmembers, horder⟩ := forall₂_perm_left hsame.symm hequal.flip
  exact ⟨reads, members, hreads, horder, hmembers.flip⟩

/-- The entries of a map are read back from their pieces, if each of them is. -/
theorem exists_entry_reads {inner : Ty} {entries visited : List (String × Datum)}
    {pieces : List (String × AttributeValue)}
    (ih : List.Forall₂ (fun entry visit => visit.1 = entry.1 ∧
      ∀ piece, c.piece? false inner visit.2 = some piece →
        ∃ read, c.decode inner piece = .ok read ∧ read.equals entry.2 = true) entries visited)
    (hpieces : c.entryPieces? inner visited = some pieces) :
    ∃ reads : List (String × Datum),
      List.Forall₂ (fun piece read => read.1 = piece.1 ∧ c.decode inner piece.2 = .ok read.2)
        pieces reads ∧
      List.Forall₂ (fun read entry => read.1 = entry.1 ∧ read.2.equals entry.2 = true)
        reads entries := by
  refine exists_forall₂ (List.Forall₂.flip ?_)
  refine (forall₂_of_steps ih (entryPieces?_eq_some.mp hpieces)).imp fun entry piece h => ?_
  obtain ⟨visit, ⟨hkey, hread⟩, hsame, hpiece⟩ := h
  obtain ⟨read, hdecode, hequals⟩ := hread piece.2 hpiece
  exact ⟨(entry.1, read), ⟨(hsame.trans hkey).symm, hdecode⟩, rfl, hequals⟩

/-- A list that ascends does so when its items are exchanged for equal ones. -/
theorem ascending_of_equal {reads items : List Datum}
    (hequal : List.Forall₂ (fun read item => read.equals item = true) reads items)
    (hascending : items.Pairwise fun x y => x.compare y = .lt) :
    reads.Pairwise fun x y => x.compare y = .lt :=
  pairwise_of_forall₂ hequal hascending fun _ _ _ _ hx hy hlt =>
    (Datum.compare_congr hx hy).trans hlt

/-- An array that is closed as a set or as a list holds just its elements and, if none of them is there
twice, each of them once. -/
theorem closeArray_elements {pieces : List AttributeValue}
    (hkept : ∀ piece ∈ pieces, piece.isVoid = false) {asSet inArray : Bool}
    {stored : AttributeValue} (hclose : Writer.closeArray asSet inArray pieces = .ok stored) :
    ∃ elements, stored.elements? = some elements ∧ (∀ e, e ∈ elements ↔ e ∈ pieces) ∧
      (pieces.Nodup → elements.Perm pieces) := by
  rw [Writer.closeArray_of_stays hkept] at hclose
  split at hclose
  · exact Writer.inferSet_elements hclose
  · cases hclose
    exact ⟨pieces, rfl, fun _ => Iff.rfl, fun _ => .refl pieces⟩

/-- A set is read from the array of the pieces of its members, whatever the array has become when it
was closed and in whatever order they were written. -/
theorem decode_set_of_reads {inner : Ty} {pieces : List AttributeValue}
    (hkept : ∀ piece ∈ pieces, piece.isVoid = false) {inArray : Bool} {stored : AttributeValue}
    (hclose : Writer.closeArray true inArray pieces = .ok stored) {reads members : List Datum}
    (hreads : List.Forall₂ (fun piece read => c.decode inner piece = .ok read) pieces reads)
    (horder : reads.Perm members) (hascending : members.Pairwise fun x y => x.compare y = .lt)
    {hashed : Bool} : c.decode (.set hashed inner) stored = .ok (.list members) := by
  obtain ⟨order, hmembers, hsame⟩ := forall₂_perm_left horder hreads.flip
  have hnodup : order.Nodup := pairwise_of_forall₂ hmembers.flip hascending
    fun piece read piece' read' hread hread' hlt heq => by
      rw [heq, hread'] at hread
      cases hread
      rw [Datum.compare_self] at hlt
      cases hlt
  obtain ⟨elements, helements, -, hperm⟩ := closeArray_elements hkept hclose
  obtain ⟨values, hvalues, hpermuted⟩ :=
    List.perm_comp_forall₂ (hperm (hsame.nodup_iff.mpr hnodup)) hreads
  refine (decode_set_eq_ok helements).mpr ⟨values, hvalues, ?_⟩
  exact (Datum.ofMembers_of_perm hashed (hpermuted.trans horder) hascending).symm

/-! ### Values -/

/-- A value in which nothing vanishes is read back from what it is stored as inside another one. -/
theorem decode_piece (h : c.Plain family) {type : Ty} (htype : type.BuiltFrom family)
    {value visited : Datum} (hvalue : c.HasType type value) (hvisits : c.Visits type value visited)
    (hstays : c.NothingVanishes type visited) {inArray : Bool} {piece : AttributeValue}
    (hpiece : c.piece? inArray type visited = some piece) :
    ∃ read, c.decode type piece = .ok read ∧ read.equals value = true := by
  induction hvisits generalizing inArray piece with
  | scalar =>
    cases hvalue with
    | scalar holds =>
      rw [piece?] at hpiece
      obtain ⟨read, hread, hequals, -⟩ :=
        readLeaf_piece h.converters htype.ne_textual holds hpiece
      refine ⟨read, ?_, hequals⟩
      rw [decode]
      exact hread
  | enumeration type =>
    cases hvalue with
    | @enumeration _ number known =>
      cases hpiece
      refine ⟨.enumeration number, ?_, beq_self_eq_true number⟩
      rw [decode, EnumType.WellFormed.toldApart htype h.enumNaming number known]
      rfl
  | absent inner =>
    cases hpiece
    refine ⟨.absent, ?_, rfl⟩
    rw [decode]
    rfl
  | @present inner value visited visits ih =>
    cases hvalue with
    | present held =>
      cases hstays with
      | present stays inside =>
        have hinner : c.KeepsStored family inner := keepsStored_of_builtFrom htype h.enumNaming
        obtain ⟨read, hread, hequals⟩ := ih htype held inside hpiece
        have hnull : piece.isAnyNull = false := by
          rw [isAnyNull_piece hpiece, Bool.eq_false_iff]
          intro hnull
          refine stays (vanishes_of_isVoid h.restorable hinner inside hpiece ?_)
          rw [AttributeValue.isVoid, hnull, Bool.true_or]
        exact ⟨_, (decode_option_eq_ok hnull).mpr ⟨read, hread, rfl⟩, hequals⟩
  | boxed visits ih =>
    cases hvalue with
    | boxed held =>
      cases hstays with
      | boxed inside =>
        obtain ⟨read, hread, hequals⟩ := ih htype held inside hpiece
        exact ⟨_, decode_boxed_eq_ok.mpr ⟨read, hread, rfl⟩, hequals⟩
  | @list inner items visited length visits ih =>
    cases hvalue with
    | list held =>
      cases hstays with
      | list stays inside =>
        have hinner : c.KeepsStored family inner := keepsStored_of_builtFrom htype h.enumNaming
        rw [piece?] at hpiece
        obtain ⟨pieces, hpieces, hclose⟩ := Option.bind_eq_some_iff.mp hpiece
        have hkept := pieces_stay (item_stays h.restorable hinner stays inside) hpieces
        rw [Writer.closeArray_of_stays hkept] at hclose
        cases hclose
        obtain ⟨reads, hreads, hequal⟩ := exists_reads (List.forall₂_iff_zip.mpr ⟨length,
          fun hmem piece hpiece => ih _ hmem htype (held _ (List.of_mem_zip hmem).1)
            (inside _ (List.of_mem_zip hmem).2) hpiece⟩) hpieces
        exact ⟨_, (decode_list_eq_ok rfl).mpr ⟨reads, hreads, rfl⟩, Datum.equalItems_iff.mpr hequal⟩
  | @set hashed inner items order visited length visits perm ih =>
    cases hvalue with
    | set _ held ascending =>
      cases hstays with
      | set stays inside =>
        have hinner : c.KeepsStored family inner := keepsStored_of_builtFrom htype h.enumNaming
        rw [piece?] at hpiece
        obtain ⟨pieces, hpieces, hclose⟩ := Option.bind_eq_some_iff.mp hpiece
        have hkept := pieces_stay (item_stays h.restorable hinner stays inside) hpieces
        obtain ⟨reads, members, hreads, horder, hequal⟩ := exists_reads_of_perm
          (List.forall₂_iff_zip.mpr ⟨length, fun hmem piece hpiece =>
            ih _ hmem htype (held _ (List.of_mem_zip hmem).1)
              (inside _ (perm.mem_iff.mp (List.of_mem_zip hmem).2)) hpiece⟩) perm hpieces
        refine ⟨.list members, ?_, Datum.equalItems_iff.mpr hequal⟩
        exact decode_set_of_reads hkept (except_toOption_eq_some.mp hclose) hreads horder
          (ascending_of_equal hequal ascending)
  | @map hashed inner entries order visited keys visits perm ih =>
    cases hvalue with
    | map _ held ascending =>
      cases hstays with
      | map stays inside =>
        have hinner : c.KeepsStored family inner := keepsStored_of_builtFrom htype h.enumNaming
        rw [piece?] at hpiece
        obtain ⟨pieces, hpieces, rfl⟩ := Option.map_eq_some_iff.mp hpiece
        obtain ⟨ordered, hordered, hcompact⟩ := exists_orderedPieces (ascending.of_keys keys.symm)
          perm hpieces (entry_stays h.restorable hinner stays hpieces)
        have hkeys : List.Forall₂ (fun entry visit => entry.1 = visit.1) entries order := by
          rwa [← List.forall₂_eq_eq_eq, List.forall₂_map_left_iff, List.forall₂_map_right_iff] at keys
        obtain ⟨reads, hreads, hequal⟩ := exists_entry_reads (List.forall₂_iff_zip.mpr
          ⟨hkeys.length_eq, fun hmem => ⟨(List.forall₂_zip hkeys hmem).symm, fun piece hpiece =>
            ih _ hmem htype (held _ (List.of_mem_zip hmem).1)
              (inside _ (perm.mem_iff.mp (List.of_mem_zip hmem).2)) hpiece⟩⟩) hordered
        rw [hcompact]
        exact ⟨_, decode_map_eq_ok.mpr ⟨reads, hreads, rfl⟩, Datum.equalEntries_iff.mpr hequal⟩
  | @document id members visited length visits ih =>
    cases hvalue with
    | document hlength held =>
      cases hstays with
      | document stays inside =>
        rw [piece?] at hpiece
        obtain ⟨u, hcheck, hpiece⟩ := Option.bind_eq_some_iff.mp hpiece
        obtain ⟨pieces, hpieces, rfl⟩ := Option.map_eq_some_iff.mp hpiece
        obtain ⟨values, hvalues, hequal⟩ := exists_memberReads h htype hlength held length visits stays
          inside hpieces
          (fun member hmember =>
            stores_compactMembers (h.names id htype) leavesFree_none hpieces hmember .none [] false)
          fun member hmember htype held inside piece => ih member hmember htype held inside
        exact ⟨_, decode_document_eq_ok.mpr
          ⟨except_toOption_eq_some.mp hcheck, values, hvalues, rfl⟩, hequal⟩
  | oneOf known length visits ih => exact htype.elim

/-! ### Items -/

/-- The item of a document of a plain family is read back as a value that equals the document, if
nothing vanishes in it: whatever nulls and defaults the options and the members leave out, under
whatever names, in whatever order sets and maps are visited, at any depth. -/
theorem fromItem_toItem (h : c.Plain family) {id : DocumentId} (hid : family id)
    {value visited : Datum} (hvalue : c.HasType (.document id) value)
    (hvisits : c.Visits (.document id) value visited)
    (hstays : c.NothingVanishes (.document id) visited) {item : Item}
    (hitem : c.toItem (.document id) visited = .ok item) :
    ∃ read, c.fromItem (.document id) item = .ok read ∧ read.equals value = true := by
  have hrestorable := h.restorable
  cases hvisits with
  | document length visits =>
    cases hvalue with
    | document hlength held =>
      cases hstays with
      | document stays inside =>
        obtain ⟨hcheck, pieces, hpieces, rfl⟩ := (toItem_document_eq_ok hrestorable hid).mp hitem
        obtain ⟨values, hvalues, hequal⟩ := exists_memberReads h hid hlength held length visits stays
          inside hpieces (fun member hmember => stores_outermost hrestorable hid hpieces hmember)
          fun member hmember htype held inside piece =>
            decode_piece h htype held (visits member hmember) inside
        exact ⟨_, decode_document_eq_ok.mpr ⟨hcheck, values, hvalues, rfl⟩, hequal⟩

/-- What is stored as something inside another value does not vanish. -/
theorem not_vanishes_of_run {type : Ty} {value : Datum} {written : AttributeValue}
    (hrun : Writer.forPart.run (c.write type value) = .ok (some written))
    (hstays : written.isVoid = false) : ¬ c.Vanishes type value := by
  rintro ⟨stored, hstored, hvoid⟩
  rw [hrun, Except.ok.injEq, Option.some.injEq] at hstored
  rw [← hstored, hstays] at hvoid
  cases hvoid

/-- The sample documents, nulls being stored. -/
def storingNulls : Codec where
  options := { CodecOptions.initial with serializeNullValues := true }
  typeName := fun _ => ""
  defaultValuesFor := none
  discriminatorFor := fun _ => none
  converters := Converter.builtins
  documents := Sample.documents ""

/-- A team with squads of members, each a set by hashes, and with a team that it belongs to. -/
def team : Document :=
  .declare "Team"
    [Sample.member "id" Sample.text [Sample.partitionKey],
     Sample.member "squads" (.list (.set true Sample.text)) [],
     Sample.member "scores" (.map true (Sample.int .int32)) [],
     Sample.member "kind" (.enumeration (Sample.nozero "")) [],
     Sample.member "lead" (.option Sample.text) [.persistNull true],
     Sample.member "deputy" (.option Sample.text) [.persistNull false],
     Sample.member "count" (Sample.int .int32) [.persistDefault true],
     Sample.member "parent" (.option (.boxed (.document 0))) []]

/-- Teams, nulls being stored. -/
def storingTeams : Codec := { storingNulls with documents := fun _ => team }

/-- A team without squads. -/
def sampleParent : Datum :=
  .document [.text "p", .list [], .map [], .enumeration 1, .absent, .absent, .int 0, .absent]

/-- A team that belongs to it. -/
def sampleTeam : Datum :=
  .document [.text "t", .list [.list [.text "ann", .text "bob"], .list [.text "cid"]],
    .map [("x", .int 1), ("y", .int 2)], .enumeration 2, .absent, .absent, .int 0,
    .present (.boxed sampleParent)]

/-- The same team, its first squad and its scores being visited in another order. -/
def sampleTeamVisited : Datum :=
  .document [.text "t", .list [.list [.text "bob", .text "ann"], .list [.text "cid"]],
    .map [("y", .int 2), ("x", .int 1)], .enumeration 2, .absent, .absent, .int 0,
    .present (.boxed sampleParent)]

/-- Its item, in which the first squad stands as it was visited. -/
def sampleTeamItem : Item :=
  [("count", .number "0"), ("id", .text "t"), ("kind", .text "Two"), ("lead", .null true),
    ("parent", .map [("count", .number "0"), ("id", .text "p"), ("kind", .text "One")]),
    ("scores", .map [("x", .number "1"), ("y", .number "2")]),
    ("squads", .list [.list [.text "bob", .text "ann"], .list [.text "cid"]])]

theorem storingTeams_plain : storingTeams.Plain (· = 0) where
  converters := rfl
  onWrite := by
    rintro id - f hf
    fin_cases hf <;> rfl
  onRead := by
    rintro id - f hf
    fin_cases hf <;> rfl
  names := by
    rintro _ rfl
    decide
  initial := by
    rintro id - f hf
    fin_cases hf
    all_goals first | rfl | exact ⟨_, rfl, by decide⟩
  enumNaming := rfl
  types := by
    have hnozero : (Sample.nozero "").WellFormed := ⟨by decide, by decide, by decide⟩
    rintro id - f hf
    fin_cases hf
    all_goals first | exact trivial | exact hnozero | exact rfl

theorem sampleParent_hasType : storingTeams.HasType (.document 0) sampleParent := by
  have hbounds : IntType.int32.low ≤ 0 ∧ 0 ≤ IntType.int32.high := by decide
  refine .document rfl fun member hmember => ?_
  fin_cases hmember
  · exact .scalar trivial
  · exact .list nofun
  · exact .map true nofun .nil
  · exact .enumeration rfl
  · exact .absent _
  · exact .absent _
  · exact .scalar hbounds
  · exact .absent _

theorem sampleTeam_hasType : storingTeams.HasType (.document 0) sampleTeam := by
  have hbounds : ∀ n ∈ [(0 : Int), 1, 2], IntType.int32.low ≤ n ∧ n ≤ IntType.int32.high := by decide
  refine .document rfl fun member hmember => ?_
  fin_cases hmember
  · exact .scalar trivial
  · refine .list fun squad hsquad => ?_
    fin_cases hsquad
    · refine .set true (fun item hitem => ?_) (List.pairwise_pair.mpr rfl)
      fin_cases hitem <;> exact .scalar trivial
    · exact .set true (List.forall_mem_singleton.mpr (.scalar trivial)) (List.pairwise_singleton _ _)
  · refine .map true (fun entry hentry => ?_) (List.pairwise_pair.mpr (by decide))
    fin_cases hentry <;> exact .scalar (hbounds _ (by decide))
  · exact .enumeration rfl
  · exact .absent _
  · exact .absent _
  · exact .scalar (hbounds 0 (by decide))
  · exact .present (.boxed sampleParent_hasType)

theorem sampleTeam_visits :
    storingTeams.Visits (.document 0) sampleTeam sampleTeamVisited := by
  refine .document rfl fun member hmember => ?_
  fin_cases hmember
  · exact .scalar _ _
  · refine .list rfl fun squad hsquad => ?_
    fin_cases hsquad
    · refine .set true rfl (fun item hitem => ?_) (List.Perm.swap _ _ _)
      fin_cases hitem <;> exact .scalar _ _
    · exact .set true rfl (List.forall_mem_singleton.mpr (.scalar _ _)) (.refl _)
  · refine .map true rfl (fun entry hentry => ?_) (List.Perm.swap _ _ _)
    fin_cases hentry <;> exact .scalar _ _
  · exact .enumeration _ _
  · exact .absent _
  · exact .absent _
  · exact .scalar _ _
  · exact .present (.boxed (.refl sampleParent_hasType))

theorem sampleParent_nothingVanishes :
    storingTeams.NothingVanishes (.document 0) sampleParent := by
  refine .document (fun member hmember hkey => ?_) fun member hmember => ?_
  · fin_cases hmember
    · exact not_vanishes_of_run rfl rfl
    all_goals cases hkey
  · fin_cases hmember
    · exact .scalar _ _
    · exact .list nofun nofun
    · exact .map nofun nofun
    · exact .enumeration _ _
    · exact .absent _
    · exact .absent _
    · exact .scalar _ _
    · exact .absent _

theorem sampleTeam_nothingVanishes :
    storingTeams.NothingVanishes (.document 0) sampleTeamVisited := by
  have hparent : Writer.forPart.run (storingTeams.write (.boxed (.document 0)) (.boxed sampleParent)) =
      .ok (some (.map [("count", .number "0"), ("id", .text "p"), ("kind", .text "One")])) := by cbv
  refine .document (fun member hmember hkey => ?_) fun member hmember => ?_
  · fin_cases hmember
    · exact not_vanishes_of_run rfl rfl
    all_goals cases hkey
  · fin_cases hmember
    · exact .scalar _ _
    · refine .list (fun squad hsquad => ?_) fun squad hsquad => ?_
      · fin_cases hsquad <;> exact not_vanishes_of_run rfl rfl
      · fin_cases hsquad
        all_goals
          refine .set (fun item hitem => ?_) fun item hitem => .scalar _ _
          fin_cases hitem <;> exact not_vanishes_of_run rfl rfl
    · refine .map (fun entry hentry => ?_) fun entry hentry => .scalar _ _
      fin_cases hentry <;> exact not_vanishes_of_run rfl rfl
    · exact .enumeration _ _
    · exact .absent _
    · exact .absent _
    · exact .scalar _ _
    · exact .present (not_vanishes_of_run hparent rfl) (.boxed sampleParent_nothingVanishes)

theorem fromItem_toItem_sampleTeam :
    storingTeams.Plain (· = 0) ∧
      storingTeams.HasType (.document 0) sampleTeam ∧
      storingTeams.Visits (.document 0) sampleTeam sampleTeamVisited ∧
      storingTeams.NothingVanishes (.document 0) sampleTeamVisited ∧
      storingTeams.toItem (.document 0) sampleTeamVisited = .ok sampleTeamItem ∧
      ∃ read, storingTeams.fromItem (.document 0) sampleTeamItem = .ok read ∧
        read.equals sampleTeam = true := by
  have hitem : storingTeams.toItem (.document 0) sampleTeamVisited = .ok sampleTeamItem := by cbv
  exact ⟨storingTeams_plain, sampleTeam_hasType, sampleTeam_visits, sampleTeam_nothingVanishes, hitem,
    fromItem_toItem storingTeams_plain rfl sampleTeam_hasType sampleTeam_visits
      sampleTeam_nothingVanishes hitem⟩

end Codec

end ItemMapper
