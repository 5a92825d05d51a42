import RowSpec.Json.Codec

/-! Shapes of records: which keys there are, and which of them may be left out. A record is read from
an object, whose unknown keys are skipped, or from a list of the values of its keys in order. -/
namespace RowSpec.Json

/-- A key of a record: whether it has to be there, what is written for it, if anything, and how its
value is read into the record. -/
structure Key (α : Type) where
  name : String
  required : Bool
  write : α → Option (List Char)
  read : α → Reader α

def Key.member? {α : Type} (value : α) (key : Key α) : Option (String × List Char) :=
  (key.write value).map (key.name, ·)

/-- A shape of records. Keys that are not there keep what they have in `blank`. -/
structure Shape (α : Type) where
  name : String
  keys : List (Key α)
  blank : α

structure Progress (α : Type) where
  value : α
  seen : List String

namespace Shape

variable {α : Type}

def lacks (p : Progress α) (key : Key α) : Bool := key.required && key.name ∉ p.seen

def take (p : Progress α) (key : Key α) : Reader (Progress α) := do
  return ⟨← key.read p.value, key.name :: p.seen⟩

def visitor (codec : Codec) (shape : Shape α) : Visitor (Progress α) α where
  name := shape.name
  start := ⟨shape.blank, []⟩
  member p name := match shape.keys.find? (·.name == name) with
    | none => .ok do codec.skipValue; return p
    | some key => if name ∈ p.seen then .error (.repeatedKey name) else .ok (take p key)
  endObject p := match shape.keys.find? (lacks p) with
    | some key => .error (.missingKey key.name)
    | none => .ok p.value
  -- in a list the keys are seen in their order
  element p := shape.keys[p.seen.length]?.map (take p)
  endList p := match shape.keys.findIdx? (lacks p) with
    | some index => .error (.tooShort index shape.name shape.keys.length)
    | none => .ok p.value

def read (codec : Codec) (shape : Shape α) : Reader α := codec.readRecord (shape.visitor codec)

def readWhole (codec : Codec) (shape : Shape α) : Reader α := do
  let value ← shape.read codec
  codec.finish
  return value

def readText (codec : Codec) (shape : Shape α) (text : String) : Except Problem α :=
  ((shape.readWhole codec).run text.toList).1

def write (codec : Codec) (shape : Shape α) (value : α) : List Char :=
  codec.writeObject (shape.keys.filterMap (Key.member? value))

end Shape

namespace Key

variable {α β : Type} (codec : Codec)

def string (name : String) (get : α → String) (set : α → String → α) : Key α where
  name := name
  required := true
  write a := some (codec.writeString (get a))
  read a := return set a (← codec.readString)

def optional (name : String) (get : α → Option String) (set : α → Option String → α) : Key α where
  name := name
  required := false
  write a := (get a).map codec.writeString
  read a := return set a (← codec.readOptional codec.readString)

/-- A list, which is written also when it is empty. -/
def list (name : String) (required : Bool) (item : Shape β) (get : α → List β)
    (set : α → List β → α) : Key α where
  name := name
  required := required
  write a := some (codec.writeList ((get a).map (item.write codec)))
  read a := return set a (← codec.readList (item.read codec))

end Key

end RowSpec.Json
