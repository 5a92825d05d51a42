import RowSpec.Expr.Traversal
import RowSpec.Reducer
import RowSpec.Schema.Basic
import RowSpec.Ty

/-! The type of an expression over a schema, computed from the operands up. A reference that starts
with a table follows fields and parents; a single name may also be a reducer or a spec, which are
functions. -/
namespace RowSpec

inductive TypeError where
  | unknownReference (path : Reference)
  | fieldHasMembers (table field : String) (path : Reference)
  | unknownMember (table member : String)
  | unknownParentTable (table : String)
  | invalidOperands (op : Operator) (left right : Ty)
  | incompatibleOperands (op : Operator) (left right : Ty)
  | incompatibleConjuncts (left right : Ty)
  | incompatibleDisjuncts (left right : Ty)
  | incompatibleNegation (child : Ty)
  | notFunction (callee : Reference)
  | arityMismatch (callee : Reference) (expected found : Nat)
  | parameterMismatch (callee : Reference) (expected found : Ty)
  | notBoolean (subject : String) (found : Ty)
  deriving DecidableEq, Repr

namespace TypeError

def reason : TypeError → String
  | .unknownReference path => "unknown reference: " ++ path.render
  | .fieldHasMembers table field path =>
    "field " ++ table ++ "." ++ field ++ " has no members: " ++ path.render
  | .unknownMember table member => "no field or parent named " ++ member ++ " on table " ++ table
  | .unknownParentTable table => "parent table not found: " ++ table
  | .invalidOperands op left right =>
    "invalid types for operator " ++ op.render ++ ": " ++ left.render ++ " and " ++ right.render
  | .incompatibleOperands op left right =>
    "incompatible types in " ++ op.render ++ ": " ++ left.render ++ " and " ++ right.render
  | .incompatibleConjuncts left right =>
    "incompatible types in conjunction: " ++ left.render ++ " and " ++ right.render
  | .incompatibleDisjuncts left right =>
    "incompatible types in disjunction: " ++ left.render ++ " and " ++ right.render
  | .incompatibleNegation child => "incompatible types in negation: " ++ child.render
  | .notFunction callee => callee.render ++ " is not a function"
  | .arityMismatch callee expected found =>
    "arity mismatch calling " ++ callee.render ++ ": expected " ++ toString expected ++
      " arguments, found " ++ toString found
  | .parameterMismatch callee expected found =>
    "parameter mismatch calling " ++ callee.render ++ ": expected " ++ expected.render ++
      ", found " ++ found.render
  | .notBoolean subject found => subject ++ " must be Boolean, found " ++ found.render

def message (e : TypeError) : String := "type error: " ++ e.reason

end TypeError

namespace Typing

/-- The type at the end of the path `members` from a row of `table`; `path` is the whole reference,
for the message. -/
def memberType (schema : Schema) (path : Reference) (table : Table) :
    List String → Except TypeError Ty
  | [] => .ok (.table table.name)
  | member :: rest =>
    match table.field? member with
    | some field =>
      if rest = [] then .ok field.type.ty
      else .error (.fieldHasMembers table.name field.name path)
    | none => match table.parent? member with
      | none => .error (.unknownMember table.name member)
      | some parent => match schema.table? parent.table with
        | none => .error (.unknownParentTable parent.table)
        | some target => memberType schema path target rest

/-- Reducers take a child and a predicate of any type; a spec takes a row of its table. -/
def functionType? (schema : Schema) (name : String) : Option Ty :=
  if (Reducer.ofName? name).isSome then some (.function .boolean [.any, .any])
  else (schema.spec? name).map fun spec => .function .boolean [.table spec.table]

/-- Tables come before functions of the same name. -/
def referenceType (schema : Schema) (path : Reference) : Except TypeError Ty :=
  match schema.table? path.first with
  | some table => memberType schema path table path.segments.tail
  | none => match path.single?.bind (functionType? schema) with
    | some ty => .ok ty
    | none => .error (.unknownReference path)

def binaryType (op : Operator) (left right : Ty) : Except TypeError Ty :=
  if op.isArithmetic then
    if left = .number ∧ right = .number then .ok .number
    else .error (.invalidOperands op left right)
  else if left.isFunction || right.isFunction then .error (.invalidOperands op left right)
  else if (left = .any ∨ right = .any) ∧ !op.isEquality then
    .error (.invalidOperands op left right)
  else match left.coalesce right with
    | none => .error (.incompatibleOperands op left right)
    | some ty =>
      if op.isEquality || ty.isOrderable then .ok .boolean
      else .error (.invalidOperands op left right)

/-- The arguments are typed one by one, each before it is held against its parameter. -/
def checkArguments (callee : Reference) :
    List (Except TypeError Ty) → List Ty → Except TypeError Unit
  | argument :: arguments, parameter :: parameters => do
    let ty ← argument
    if (ty.coalesce parameter).isNone then .error (.parameterMismatch callee parameter ty)
    else checkArguments callee arguments parameters
  | _, _ => .ok ()

def callType (schema : Schema) (callee : Reference) (arguments : List (Except TypeError Ty)) :
    Except TypeError Ty := do
  match ← referenceType schema callee with
  | .function returns parameters =>
    if arguments.length = parameters.length then
      checkArguments callee arguments parameters
      pure returns
    else .error (.arityMismatch callee parameters.length arguments.length)
  | _ => .error (.notFunction callee)

def visit {ι : Type} (schema : Schema) : Expr.Layer ι Ty (Except TypeError Ty) → Except TypeError Ty
  | .null => .ok .any
  | .boolean _ => .ok .boolean
  | .number _ => .ok .number
  | .string _ => .ok .string
  | .reference path => referenceType schema path
  | .binary op left right => binaryType op left right
  | .conjunction left right =>
    if left = .boolean ∧ right = .boolean then .ok .boolean
    else .error (.incompatibleConjuncts left right)
  | .disjunction left right =>
    if left = .boolean ∧ right = .boolean then .ok .boolean
    else .error (.incompatibleDisjuncts left right)
  | .negation child =>
    if child = .boolean then .ok .boolean else .error (.incompatibleNegation child)
  | .call _ callee arguments => callType schema callee (arguments.map Prod.snd)

end Typing

namespace Expr

variable {ι : Type}

def typeOf (schema : Schema) (e : Expr ι) : Except TypeError Ty := e.postorder (Typing.visit schema)

/-- Whether the expression is a predicate; `subject` names it in the message. -/
def checkBoolean (schema : Schema) (subject : String) (e : Expr ι) : Except TypeError Unit := do
  let ty ← e.typeOf schema
  if ty = .boolean then pure () else .error (.notBoolean subject ty)

end Expr

end RowSpec
