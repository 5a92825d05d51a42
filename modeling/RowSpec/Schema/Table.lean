import RowSpec.Text.Basic
import RowSpec.Ty

/-! Tables: fields, the id among them, and the parents that a row may lead to. Within a table each
name stands for at most one field or parent. -/
namespace RowSpec

inductive FieldType where
  | boolean
  | number
  | date
  | string
  deriving DecidableEq, Repr

namespace FieldType

/-- The type of that exact name; every other name means a string. -/
def ofName (name : String) : FieldType :=
  match name with
  | "boolean" => .boolean
  | "number" => .number
  | "date" => .date
  | _ => .string

def ty : FieldType → Ty
  | .boolean => .boolean
  | .number => .number
  | .date => .date
  | .string => .string

end FieldType

structure Field where
  name : String
  type : FieldType
  deriving DecidableEq, Repr

structure Parent where
  name : String
  table : String
  id : String
  deriving DecidableEq, Repr

structure Table where
  name : String
  id : String
  fields : List Field
  parents : List Parent
  deriving DecidableEq, Inhabited, Repr

inductive SchemaError where
  | duplicateField (table field : String)
  | duplicateParent (table parent : String)
  | missingId (table id : String)
  | missingParentIds (table : String) (ids : List String)
  | collidingParents (table : String) (parents : List String)
  | duplicateTable (table : String)
  | duplicateSpec (spec : String)
  | unknownSpecTable (spec table : String)
  | unknownTable (table : String)
  deriving DecidableEq, Repr

namespace SchemaError

def reason : SchemaError → String
  | .duplicateField table field => "duplicate field on table " ++ table ++ ": " ++ field
  | .duplicateParent table parent => "duplicate parent on table " ++ table ++ ": " ++ parent
  | .missingId table id => "table " ++ table ++ " id field not found: " ++ id
  | .missingParentIds table ids =>
    "table " ++ table ++ " parent id not found: " ++ Text.joinWith ", " ids
  | .collidingParents table parents =>
    "table " ++ table ++ " parent relationship collides with field: " ++
      Text.joinWith ", " parents
  | .duplicateTable table => "duplicate table: " ++ table
  | .duplicateSpec spec => "duplicate spec: " ++ spec
  | .unknownSpecTable spec table => "spec " ++ spec ++ " table not found: " ++ table
  | .unknownTable table => "table not found: " ++ table

def message (e : SchemaError) : String := "schema error: " ++ e.reason

end SchemaError

def firstRepeated (seen : List String) : List String → Option String
  | [] => none
  | name :: names => if name ∈ seen then some name else firstRepeated (seen ++ [name]) names

namespace Table

def field? (t : Table) (name : String) : Option Field := t.fields.find? (·.name == name)

def parent? (t : Table) (name : String) : Option Parent := t.parents.find? (·.name == name)

def parentTo? (t : Table) (table : String) : Option Parent := t.parents.find? (·.table == table)

def hasField (t : Table) (name : String) : Bool := t.fields.any (·.name == name)

/-- The table itself, or the first of five faults in the order in which they are looked for. -/
def validate (t : Table) : Except SchemaError Table :=
  match firstRepeated [] (t.fields.map Field.name) with
  | some field => .error (.duplicateField t.name field)
  | none => match firstRepeated [] (t.parents.map Parent.name) with
    | some parent => .error (.duplicateParent t.name parent)
    | none =>
      let missing := (t.parents.map Parent.id).filter fun id => !t.hasField id
      let colliding := (t.parents.map Parent.name).filter t.hasField
      if !t.hasField t.id then .error (.missingId t.name t.id)
      else if missing ≠ [] then .error (.missingParentIds t.name missing)
      else if colliding ≠ [] then .error (.collidingParents t.name colliding)
      else .ok t

end Table

end RowSpec
