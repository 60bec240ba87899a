import ItemMapper.Codec.Converter

/-!
# What is asked of a registry

A registry is asked to take one more converter, to find the one for a type, or to write or read a value by
it. Each request is answered, and leaves a registry that may remember more than before, or nothing.

## Main definitions

* `Registry.write`, `Registry.read`: a value is written or read by the converter that is found.
* `Registry.Request`, `Registry.Answer`: what is asked, and what comes of it.
* `Registry.serve`: the answer to a request, and the registry after it.
* `Registry.after`: the registry after a sequence of requests.
-/

namespace ItemMapper.Registry

/-- Writes a value by the converter for its type, which messages call by a name. -/
def write (r : Registry) (name : String) (value : Typed) : WriterM Unit × Registry :=
  let (converter, r) := r.find value.type
  (Converter.writeBy converter name value, r)

/-- Reads a value of the target by the converter for its type. -/
def read (r : Registry) (target : Target) (value : AttributeValue) :
    Except Error Datum × Registry :=
  let (converter, r) := r.find target.type
  (Converter.readBy converter target value, r)

/-- What a registry is asked for. -/
inductive Request where
  | register (converter : Converter)
  | find (type : Ty)
  /-- To write a value of a type that has a name. -/
  | write (name : String) (value : Typed)
  | read (target : Target) (value : AttributeValue)

/-- What comes of a request. -/
inductive Answer where
  | registered
  | found (converter : Option Converter)
  /-- The call of a writer. -/
  | written (call : WriterM Unit)
  | read (result : Except Error Datum)

/-- The answer to a request, and the registry after it. -/
def serve (r : Registry) : Request → Answer × Registry
  | .register converter => (.registered, r.register converter)
  | .find type => (r.find type).map .found id
  | .write name value => (r.write name value).map .written id
  | .read target value => (r.read target value).map .read id

/-- The registry after a sequence of requests. -/
def after (r : Registry) (requests : List Request) : Registry :=
  requests.foldl (fun r request => (r.serve request).2) r

end ItemMapper.Registry
