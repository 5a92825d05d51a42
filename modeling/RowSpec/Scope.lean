import RowSpec.Expr.Traversal
import RowSpec.Reducer
import RowSpec.Schema.Basic

/-! Which tables an expression may refer to: the root table, and inside a call of a reducer also
the table of the children that the call is about. -/
namespace RowSpec

inductive ScopeError where
  | emptyReference
  | notJoined (table : String)
  | segmentCount (callee : Reference)
  | referenceRequired
  | unknownFunction (callee : Reference)
  deriving DecidableEq, Repr

namespace ScopeError

def reason : ScopeError → String
  | .emptyReference => "reference has no segments"
  | .notJoined table => "reference is not to a joined table: " ++ table
  | .segmentCount callee => "function reference has invalid segment count: " ++ callee.render
  | .referenceRequired => "builtin requires reference parameter"
  | .unknownFunction callee => "function reference not found: " ++ callee.render

def message (e : ScopeError) : String := "reference error: " ++ e.reason

end ScopeError

namespace Schema

/-- Whether a name may be called: reducers go by any case, specs by their exact name. -/
def isCallable (s : Schema) (name : String) : Bool :=
  (Reducer.ofName? name).isSome || (s.spec? name).isSome

end Schema

namespace Expr

/-- The path of a reference to children: a table, or a table and one of its parents. -/
def childPath? {ι : Type} (e : Expr ι) : Option Reference :=
  e.reference?.filter fun path => path.segments.length == 1 || path.segments.length == 2

end Expr

namespace Scope

def visitReference (schema : Schema) (tables : List String) (path : Reference) :
    Except ScopeError (List String) :=
  if path.segments = [] then .error .emptyReference
  else if path.single?.any schema.isCallable then .ok tables
  else if path.first ∈ tables then .ok tables
  else .error (.notJoined path.first)

def visitCall {ι : Type} (schema : Schema) (tables : List String) (callee : Reference)
    (arguments : List (Expr ι)) : Except ScopeError (List String) :=
  match callee.single? with
  | none => .error (.segmentCount callee)
  | some name =>
    if (Reducer.ofName? name).isSome then
      match arguments.head?.bind Expr.childPath? with
      | some path => .ok (tables ++ [path.first])
      | none => .error .referenceRequired
    else if (schema.spec? name).isSome then .ok tables
    else .error (.unknownFunction callee)

/-- The tables in scope below a node, given those in scope at it. -/
def visit {ι : Type} (schema : Schema) (tables : List String) :
    Expr ι → Except ScopeError (List String)
  | .reference _ path => visitReference schema tables path
  | .call _ callee arguments => visitCall schema tables callee arguments
  | _ => .ok tables

end Scope

def Expr.checkScope {ι : Type} (schema : Schema) (root : String) (e : Expr ι) :
    Except ScopeError Unit := do
  let _ ← e.preorder (Scope.visit schema) [root]

end RowSpec
