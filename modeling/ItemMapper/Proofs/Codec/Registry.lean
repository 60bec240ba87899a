import Mathlib.Data.List.Induction
import ItemMapper.Codec.Basic
import ItemMapper.Codec.Decoding
import ItemMapper.Codec.Registry
import ItemMapper.Sample.Converters

/-!
# What a registry remembers makes no difference

A registry looks for the converter of a type only once between two registrations. Whatever it is asked for
in whatever order, it answers as if it searched its chain anew each time: the converter that was registered
last among those that handle the type, else the first one of the configuration, else the one that is always
there. What it remembers are the types that it was asked for since the last registration, and nothing from
before.

## Main definitions

* `Registry.chosen`: the converter for a type by a search of three lists.
* `Registry.registered`, `Registry.asked`: the converters that requests register, and the types that they
  ask for after the last of these.
* `Registry.Remembers`: the invariant.

## Main statements

* `Registry.ofConfiguration_eq_foldr`: the chain of a configuration, converter by converter.
* `Registry.Remembers.serve`: each request is answered by a new search and keeps the invariant.
* `Registry.serve_after`: **what has been found makes no difference to what is found**.
* `Registry.writeLeaf_eq`, `Registry.readLeaf_eq`: the codec, which remembers nothing, writes and reads
  leaves as the registry does.
-/

namespace ItemMapper

namespace Registry

/-! ### A new search -/

/-- The converter for a type: the latest one that was registered for it, else the first one of the
configuration, else the one that is always there. -/
def chosen (registered configured : List Converter) (type : Ty) : Option Converter :=
  (registered.find? (·.handles type)).or <|
    (configured.find? (·.handles type)).or <| Converter.builtins.find? (·.handles type)

/-- The answer to a request where each type has a converter, or none. -/
def Request.answerBy (choose : Ty → Option Converter) : Request → Answer
  | .register _ => .registered
  | .find type => .found (choose type)
  | .write name value => .written (Converter.writeBy (choose value.type) name value)
  | .read target value => .read (Converter.readBy (choose target.type) target value)

theorem first?_eq_chosen (registered configured : List Converter) (type : Ty) :
    Converter.first? (registered ++ (configured ++ Converter.builtins)) type =
      chosen registered configured type := by
  rw [Converter.first?, List.find?_append, List.find?_append, chosen]

/-- The registry of a configuration is made by registering its converters, the last one first. -/
theorem ofConfiguration_eq_foldr (configured : List Converter) :
    ofConfiguration configured =
      configured.foldr (fun converter r => r.register converter) (ofConfiguration []) := by
  induction configured with
  | nil => rfl
  | cons converter rest ih =>
    rw [List.foldr_cons, ← ih]
    rfl

/-! ### What requests leave behind -/

/-- The converters after a request, the latest one first. -/
def Request.registers (request : Request) (converters : List Converter) : List Converter :=
  match request with
  | .register converter => converter :: converters
  | _ => converters

/-- The types that have been asked for since the last registration, after a request. -/
def Request.asks (request : Request) (types : List Ty) : List Ty :=
  match request with
  | .register _ => []
  | .find type => type :: types
  | .write _ value => value.type :: types
  | .read target _ => target.type :: types

/-- The converters that requests register, the latest one first. -/
def registered (requests : List Request) : List Converter :=
  requests.foldl (fun converters request => request.registers converters) []

/-- The types that requests ask for after the last registration. -/
def asked (requests : List Request) : List Ty :=
  requests.foldl (fun types request => request.asks types) []

/-- What is true of a registry between requests: its chain is what has been registered, configured and
always there, and it remembers what a search of this chain finds for the types that were asked for. -/
structure Remembers (configured registered : List Converter) (asked : List Ty) (r : Registry) :
    Prop where
  chain : r.chain = registered ++ (configured ++ Converter.builtins)
  found : ∀ type, r.found.lookup type =
    if type ∈ asked then some (chosen registered configured type) else none

variable {configured registered : List Converter} {asked : List Ty} {r : Registry}

theorem remembers_ofConfiguration (configured : List Converter) :
    Remembers configured [] [] (ofConfiguration configured) :=
  ⟨rfl, fun _ => rfl⟩

theorem Remembers.register (h : Remembers configured registered asked r) (converter : Converter) :
    Remembers configured (converter :: registered) [] (r.register converter) :=
  ⟨congrArg (converter :: ·) h.chain, fun _ => rfl⟩

/-- What is found is what a search finds, remembered or not, and is remembered from then on. -/
theorem Remembers.find (h : Remembers configured registered asked r) (type : Ty) :
    (r.find type).1 = chosen registered configured type ∧
      Remembers configured registered (type :: asked) (r.find type).2 := by
  have hlookup := h.found type
  unfold Registry.find
  by_cases hasked : type ∈ asked
  · rw [if_pos hasked] at hlookup
    rw [hlookup]
    refine ⟨rfl, h.chain, fun other => ?_⟩
    rw [h.found other]
    refine if_congr ?_ rfl rfl
    rw [List.mem_cons]
    exact ⟨.inr, fun hother => hother.elim (fun heq => heq ▸ hasked) id⟩
  · rw [if_neg hasked] at hlookup
    have hsearch : Converter.first? r.chain type = chosen registered configured type := by
      rw [h.chain, first?_eq_chosen]
    rw [hlookup]
    refine ⟨hsearch, h.chain, fun other => ?_⟩
    change List.lookup other ((type, Converter.first? r.chain type) :: r.found) = _
    rw [List.lookup_cons, h.found other, hsearch]
    by_cases heq : other = type
    · subst heq
      rw [beq_self_eq_true, if_pos List.mem_cons_self]
    · rw [beq_false_of_ne heq]
      exact if_congr (by rw [List.mem_cons, or_iff_right heq]) rfl rfl

/-- A request is answered by a new search, and keeps the invariant. -/
theorem Remembers.serve (h : Remembers configured registered asked r) (request : Request) :
    (r.serve request).1 = request.answerBy (chosen registered configured) ∧
      Remembers configured (request.registers registered) (request.asks asked)
        (r.serve request).2 := by
  cases request with
  | register converter => exact ⟨rfl, h.register converter⟩
  | find type => exact ⟨congrArg Answer.found (h.find type).1, (h.find type).2⟩
  | write name value =>
    obtain ⟨hfind, hafter⟩ := h.find value.type
    refine ⟨?_, hafter⟩
    exact congrArg (fun converter => Answer.written (Converter.writeBy converter name value)) hfind
  | read target value =>
    obtain ⟨hfind, hafter⟩ := h.find target.type
    refine ⟨?_, hafter⟩
    exact congrArg (fun converter => Answer.read (Converter.readBy converter target value)) hfind

/-- The invariant holds after all requests, by induction on their number. -/
theorem remembers_after (configured : List Converter) (requests : List Request) :
    Remembers configured (Registry.registered requests) (Registry.asked requests)
      ((ofConfiguration configured).after requests) := by
  induction requests using List.reverseRecOn with
  | nil => exact remembers_ofConfiguration configured
  | append_singleton requests request ih =>
    unfold Registry.registered Registry.asked Registry.after at ih ⊢
    simp only [List.foldl_append, List.foldl_cons, List.foldl_nil]
    exact (ih.serve request).2

/-- **What a registry remembers makes no difference.** After any requests to the registry of any
configuration, the next request is answered as by a new search: by the latest converter that was registered
for the type, else by the first one of the configuration, else by the one that is always there, if there is
one. What is remembered then is what such a search finds, for the types that were asked for since the last
registration and for no others. -/
theorem serve_after (configured : List Converter) (requests : List Request) :
    (∀ request, (((ofConfiguration configured).after requests).serve request).1 =
        request.answerBy (chosen (Registry.registered requests) configured)) ∧
      ∀ type, ((ofConfiguration configured).after requests).found.lookup type =
        if type ∈ Registry.asked requests then
          some (chosen (Registry.registered requests) configured type)
        else none :=
  have h := remembers_after configured requests
  ⟨fun request => (h.serve request).1, h.found⟩

/-- What was found for texts is not used once there is a new converter of texts. -/
example :
    ((((ofConfiguration [Sample.quote]).after
      [.find (.scalar .text), .register Sample.shout]).find (.scalar .text)).1.map (·.name)) =
        some "shout" := by
  decide

/-! ### The codec -/

/-- A codec with the chain of a registry writes a leaf as the registry does. -/
theorem writeLeaf_eq (h : Remembers configured registered asked r) {c : Codec}
    (hchain : c.converters = r.chain) (type : Ty) (value : Datum) :
    c.writeLeaf type value = (r.write (c.typeName type) ⟨type, value⟩).1 := by
  have hfind := (h.find type).1
  rw [← first?_eq_chosen, ← h.chain, ← hchain] at hfind
  exact congrArg (Converter.writeBy · (c.typeName type) ⟨type, value⟩) hfind.symm

/-- It reads a leaf as the registry does. -/
theorem readLeaf_eq (h : Remembers configured registered asked r) {c : Codec}
    (hchain : c.converters = r.chain) (type : Ty) (value : AttributeValue) :
    c.readLeaf type value = (r.read (c.target type) value).1 := by
  have hfind := (h.find type).1
  rw [← first?_eq_chosen, ← h.chain, ← hchain] at hfind
  exact congrArg (Converter.readBy · (c.target type) value) hfind.symm

end Registry

end ItemMapper
