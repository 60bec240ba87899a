import ItemMapper.Proofs.Aliases.Closure

/-!
# The placeholder tables over whole runs

Requests follow each other in a session, some succeed and some fail, and raw text may bring any
placeholders. The tables are steady all the same: nothing is bound anew or removed, names and values
find placeholders that stand for them, new placeholders stood for nothing before, and equal names
and values get the same placeholder whenever they ask. The texts that were returned stay readable.

## Main definitions

* `Request.runAll`: carries out requests one after the other.
* `Aliases.standsFor`, `Aliases.placeholderOf?`: from placeholders to things and back.
* `Session.Steady`: what the tables of a session promise, whatever is requested later.
* `Session.Readable`: what is promised for the texts that a session yields.

## Main statements

* `Request.runAll_grows`: requests only add placeholders.
* `Session.steady_runAll`: **every run leads to steady tables**.
-/

namespace ItemMapper

/-- Carries out requests one after the other, whether they succeed or fail. -/
def Request.runAll (requests : List Request) (s : Session) : Session :=
  requests.foldl (fun s request => after request.run s) s

/-- What a placeholder is for: a name or a value. -/
abbrev Thing := String ⊕ AttributeValue

namespace Aliases

/-- What a placeholder stands for. -/
def standsFor (a : Aliases) : Sigil → String → Option Thing
  | .name, placeholder => (a.names.get? placeholder).map .inl
  | .value, placeholder => (a.values.get? placeholder).map .inr

/-- The placeholder that a name or a value finds. -/
def placeholderOf? (a : Aliases) : Thing → Option String
  | .inl name => a.nameAliases.lookup name
  | .inr value => aliasOf? a.valueAliases value

theorem Extends.standsFor {a b : Aliases} (h : a.Extends b) {sigil : Sigil} {placeholder : String}
    {thing : Thing} (ha : a.standsFor sigil placeholder = some thing) :
    b.standsFor sigil placeholder = some thing := by
  cases sigil with
  | name =>
    obtain ⟨name, hname, rfl⟩ := Option.map_eq_some_iff.mp ha
    exact congrArg (Option.map Sum.inl) (h.names hname)
  | value =>
    obtain ⟨value, hvalue, rfl⟩ := Option.map_eq_some_iff.mp ha
    exact congrArg (Option.map Sum.inr) (h.values hvalue)

theorem Keeps.placeholderOf? {a b : Aliases} (h : a.Keeps b) {thing : Thing} {placeholder : String}
    (ha : a.placeholderOf? thing = some placeholder) :
    b.placeholderOf? thing = some placeholder := by
  cases thing with
  | inl name => exact h.names ha
  | inr value => exact h.values ha

/-- In coherent tables, a placeholder that is found stands for a thing that finds it. -/
theorem Coherent.exists_standsFor {a : Aliases} (ha : a.Coherent) {sigil : Sigil}
    {placeholder : String} (h : a.Finds sigil placeholder) :
    ∃ thing, a.standsFor sigil placeholder = some thing ∧
      a.placeholderOf? thing = some placeholder := by
  cases sigil with
  | name =>
    obtain ⟨name, hname⟩ := h
    refine ⟨.inl name, ?_, hname⟩
    exact congrArg (Option.map Sum.inl) (ha.names (mem_of_lookup hname))
  | value =>
    obtain ⟨value, hvalue⟩ := h
    obtain ⟨present, hmem, hsame⟩ := mem_of_aliasOf? hvalue
    refine ⟨.inr present, congrArg (Option.map Sum.inr) (ha.values hmem), ?_⟩
    exact (aliasOf?_congr _ hsame).trans hvalue

end Aliases

/-! ### Runs -/

namespace Request

variable {own : Char → String → Prop}

/-- **Requests only add placeholders**, whether they succeed or fail. -/
theorem runAll_grows {requests : List Request}
    (h : ∀ request ∈ requests, ∀ raw ∈ request.raws, raw.Brings own) (s : Session) :
    Session.Grows own s (runAll requests s) := by
  induction requests generalizing s with
  | nil => exact refl s
  | cons request rest ih =>
    have hfirst := Request.grows (h request List.mem_cons_self) s
    have hrest := ih (fun other hother => h other (List.mem_cons_of_mem _ hother))
      (after request.run s)
    exact IsTrans.trans s _ _ hfirst hrest

/-- Whatever raw text brings is allowed where anything is. -/
theorem runAll_grows_arbitrary (requests : List Request) (s : Session) :
    Session.Grows Aliases.Arbitrary s (runAll requests s) :=
  runAll_grows (fun _ _ _ _ => ⟨fun _ _ => trivial, fun _ _ => trivial⟩) s

end Request

namespace Session

open Request (runAll)

/-- What the placeholder tables of a session promise, whatever is requested later. -/
structure Steady (s : Session) : Prop where
  /-- A placeholder stands for the same thing for good. -/
  kept : ∀ {sigil placeholder thing}, s.aliases.standsFor sigil placeholder = some thing →
    ∀ later, (runAll later s).aliases.standsFor sigil placeholder = some thing
  /-- The placeholder that a name finds stands for it. -/
  name_found : ∀ {name placeholder}, s.aliases.nameAliases.lookup name = some placeholder →
    s.aliases.names.get? placeholder = some name
  /-- The placeholder that a value finds stands for an equal value. -/
  value_found : ∀ {value placeholder},
    Aliases.aliasOf? s.aliases.valueAliases value = some placeholder →
    ∃ present, s.aliases.values.get? placeholder = some present ∧ present.same value = true
  /-- A name that asks for its placeholder gets the one that it has or one that stood for nothing,
  and the same one at any later time. -/
  name_asked : ∀ name, ∃ placeholder t,
    (Request.nameAlias name).text s = .ok placeholder t ∧
      (s.aliases.nameAliases.lookup name = some placeholder ∧ t = s ∨
        s.aliases.names.get? placeholder = none ∧
          ∃ number, placeholder = Aliases.nameMark number) ∧
      ∀ later, (Request.nameAlias name).text (runAll later t) = .ok placeholder (runAll later t)
  /-- A value that asks for its placeholder gets the one that it has or one that stood for nothing,
  and an equal value gets the same one at any later time. -/
  value_asked : ∀ value, ∃ placeholder t,
    (Request.valueAlias value).text s = .ok placeholder t ∧
      (Aliases.aliasOf? s.aliases.valueAliases value = some placeholder ∧ t = s ∨
        s.aliases.values.get? placeholder = none ∧
          ∃ number, placeholder = Aliases.valueMark number) ∧
      ∀ later value', value.same value' = true →
        (Request.valueAlias value').text (runAll later t) = .ok placeholder (runAll later t)

/-- What is promised for the texts that a session yields without raw text: at any later time, each
placeholder in such a text stands for the thing that it stood for then, and is the one placeholder
that this thing finds. -/
def Readable (s : Session) : Prop :=
  ∀ {request : Request} {text : String} {t : Session}, request.raws = [] →
    request.text s = .ok text t →
    ∀ {sigil placeholder}, placeholder ∈ placeholdersIn sigil text.toList →
      ∃ thing, t.aliases.standsFor sigil placeholder = some thing ∧
        ∀ later, (runAll later t).aliases.standsFor sigil placeholder = some thing ∧
          (runAll later t).aliases.placeholderOf? thing = some placeholder

theorem extends_runAll (later : List Request) (s : Session) :
    s.aliases.Extends (runAll later s).aliases :=
  Aliases.Grows.extends (Request.runAll_grows_arbitrary later s)

theorem keeps_runAll (later : List Request) (s : Session) :
    s.aliases.Keeps (runAll later s).aliases :=
  Aliases.Grows.keeps (Request.runAll_grows_arbitrary later s)

theorem steady_of_coherent {s : Session} (hs : s.aliases.Coherent) : s.Steady where
  kept hthing later := (extends_runAll later s).standsFor hthing
  name_found hfound := hs.names (mem_of_lookup hfound)
  value_found hfound := by
    obtain ⟨present, hmem, hsame⟩ := Aliases.mem_of_aliasOf? hfound
    exact ⟨present, hs.values hmem, hsame⟩
  name_asked name := by
    obtain ⟨placeholder, b, hrun, -, hcases⟩ := Aliases.nameAlias_cases s.aliases name
    refine ⟨placeholder, { s with aliases := b }, onAliases_eq_ok.mpr ⟨b, hrun, rfl⟩, ?_, ?_⟩
    · rcases hcases with ⟨hfound, rfl⟩ | ⟨-, hfree, hnumber⟩
      · exact .inl ⟨hfound, rfl⟩
      · exact .inr ⟨hfree, hnumber⟩
    · intro later
      refine onAliases_eq_ok.mpr ⟨_, ?_, rfl⟩
      exact (keeps_runAll later { s with aliases := b }).nameAlias hrun
  value_asked value := by
    obtain ⟨placeholder, b, hrun, -, hcases⟩ := Aliases.valueAlias_cases s.aliases value
    refine ⟨placeholder, { s with aliases := b }, onAliases_eq_ok.mpr ⟨b, hrun, rfl⟩, ?_, ?_⟩
    · rcases hcases with ⟨hfound, rfl⟩ | ⟨-, hfree, hnumber⟩
      · exact .inl ⟨hfound, rfl⟩
      · exact .inr ⟨hfree, hnumber⟩
    · intro later value' hsame
      refine onAliases_eq_ok.mpr ⟨_, ?_, rfl⟩
      exact (keeps_runAll later { s with aliases := b }).valueAlias hrun hsame

theorem readable_of_tidy {s : Session} (hs : s.aliases.Tidy) : s.Readable := by
  intro request text t hraws h sigil placeholder hmem
  have haccounted := request.accounted_text hraws h (.refl hs)
  have hfinds : t.aliases.Finds sigil placeholder := by
    refine haccounted.found ?_
    rwa [List.nil_append, usedIn_cons, usedIn_nil, List.append_nil]
  obtain ⟨thing, hthing, hfound⟩ := haccounted.tidy.coherent.exists_standsFor hfinds
  refine ⟨thing, hthing, fun later => ⟨?_, ?_⟩⟩
  · exact (extends_runAll later t).standsFor hthing
  · exact (keeps_runAll later t).placeholderOf? hfound

/-- **Every run leads to steady tables**, whatever raw text brings; and to readable texts, where raw
text brings placeholders that can be told in a text. -/
theorem steady_runAll (counter : Nat) (earlier : List Request) :
    (runAll earlier (start counter)).Steady ∧
      ((∀ request ∈ earlier, ∀ raw ∈ request.raws, raw.Brings Aliases.Marked) →
        (runAll earlier (start counter)).Readable) := by
  refine ⟨steady_of_coherent ?_, fun hraws => readable_of_tidy ?_⟩
  · exact Aliases.Grows.coherent (Request.runAll_grows_arbitrary earlier (start counter))
      Aliases.coherent_empty
  · exact Aliases.Grows.tidy (Request.runAll_grows hraws (start counter)) Aliases.tidy_empty

/-- Raw text that takes the first generated placeholder, a condition that fails after a value has got
its placeholder, and an update. -/
def mixedRequests : List Request :=
  [.placeholders default ((RawExpression.ofText "#p0 = :v1").bindName "p0" "size"),
    .condition (.untyped default) (.binary .and
      (.binary .eq (.member .item "a") (.constant (.int 1)))
      (.unary .negate (.member .item "a"))),
    .update (.untyped default) (.call .set [.member .item "name", .constant (.int 1)])]

theorem steady_runAll_mixedRequests :
    (∀ request ∈ mixedRequests, ∀ raw ∈ request.raws, raw.Brings Aliases.Marked) ∧
      (runAll mixedRequests (start 0)).Steady ∧ (runAll mixedRequests (start 0)).Readable := by
  have hmarked : ∀ request ∈ mixedRequests, ∀ raw ∈ request.raws, raw.Brings Aliases.Marked := by
    refine List.forall_mem_cons.mpr ⟨List.forall_mem_singleton.mpr ⟨?_, nofun⟩, ?_⟩
    · refine List.forall_mem_singleton.mpr ?_
      change Aliases.isPlaceholder '#' (RawExpression.withMark '#' "p0") = true
      decide
    · exact List.forall_mem_cons.mpr ⟨nofun, List.forall_mem_singleton.mpr nofun⟩
  exact ⟨hmarked, (steady_runAll 0 mixedRequests).1, (steady_runAll 0 mixedRequests).2 hmarked⟩

end Session

end ItemMapper
