import RowSpec.Attempt
import RowSpec.Expr.Traversal
import RowSpec.Reducer
import RowSpec.Schema.Basic
import RowSpec.Scope
import RowSpec.Sql.Draft

/-! From expressions to SQL. A reference joins the parents on its path. A call of a spec compiles
the body of the spec in place of the call. A call of a reducer sets up a common table expression
that marks the rows in question, and joins it. What was asked for stays asked for if a later part
fails, except that a failing reducer or spec body leaves nothing behind. -/
namespace RowSpec.Sql

inductive CompileError where
  | emptyReference
  | unknownTable (table : String)
  | fieldHasMembers (table field : String)
  | unknownParent (table parent : String)
  | segmentCount (callee : Reference)
  | unknownFunction (name : String)
  | specArity (spec : String) (found : Nat)
  | notRow (spec : String) (found : Term)
  | endlessCalls (spec : String)
  | reducerArity (reducer : Reducer) (found : Nat)
  | referenceRequired
  | noRelationship (child parent : String)
  deriving DecidableEq, Repr

namespace CompileError

def reason : CompileError → String
  | .emptyReference => "reference has no segments"
  | .unknownTable table => "table not found: " ++ table
  | .fieldHasMembers table field => "field " ++ table ++ "." ++ field ++ " has no members"
  | .unknownParent table parent => "parent not found on table " ++ table ++ ": " ++ parent
  | .segmentCount callee => "function reference has invalid segment count: " ++ callee.render
  | .unknownFunction name => "function not found: " ++ name
  | .specArity spec found =>
    "spec " ++ spec ++ " takes exactly one argument, found " ++ toString found
  | .notRow spec found =>
    "spec " ++ spec ++ " argument must be a table reference, found " ++ found.render
  | .endlessCalls spec => "spec " ++ spec ++ " calls itself"
  | .reducerArity reducer found =>
    reducer.name ++ " takes a child reference and an optional predicate, found " ++
      toString found ++ " arguments"
  | .referenceRequired => "builtin requires reference parameter"
  | .noRelationship child parent => "no relationship from " ++ child ++ " to " ++ parent

def message (e : CompileError) : String := "compile error: " ++ e.reason

end CompileError

abbrev Build := Attempt Draft CompileError

def parentJoin (qualifier : String) (parent : Parent) (target : Table) : Join :=
  let name := qualifier ++ "." ++ parent.name
  ⟨.inner, target.name, some name, ⟨name, target.id⟩, ⟨qualifier, parent.id⟩⟩

/-- A field that is a boolean is a condition, any other a scalar. -/
def fieldTerm (qualifier : String) (field : Field) : Term :=
  match field.type with
  | .boolean => .test ⟨qualifier, field.name⟩ .isOne
  | _ => .column ⟨qualifier, field.name⟩

def compileMembers (schema : Schema) (qualifier : String) (table : Table) :
    List String → Build Term
  | [] => pure (.row qualifier)
  | member :: rest =>
    match table.field? member with
    | some field =>
      if rest = [] then pure (fieldTerm qualifier field)
      else Attempt.fail (.fieldHasMembers table.name field.name)
    | none => match table.parent? member with
      | none => Attempt.fail (.unknownParent table.name member)
      | some parent => match schema.table? parent.table with
        | none => Attempt.fail (.unknownTable parent.table)
        | some target => do
          let join := parentJoin qualifier parent target
          Attempt.update (·.addJoin join)
          compileMembers schema join.key target rest

/-- A path that starts with the table of the draft starts with the name of its rows. -/
def compileReference (schema : Schema) (path : Reference) : Build Term :=
  match path.segments with
  | [] => Attempt.fail .emptyReference
  | first :: members =>
    match schema.table? first with
    | none => Attempt.fail (.unknownTable first)
    | some table => do
      let draft ← Attempt.read
      compileMembers schema (if first = draft.table then draft.root else first) table members

structure Reduction where
  parent : Table
  child : Table
  link : Parent

/-- The second name of a path to children picks the relationship; without one it is the first that
leads to the table. -/
def Reduction.link? (child : Table) (parent : String) (path : Reference) : Option Parent :=
  match path.segments.tail with
  | name :: _ => (child.parent? name).filter (·.table == parent)
  | [] => child.parentTo? parent

def Reduction.resolve (schema : Schema) (table : String) (child : Expr NodeId) :
    Except CompileError Reduction :=
  match child.childPath? with
  | none => .error .referenceRequired
  | some path => match schema.table? table with
    | none => .error (.unknownTable table)
    | some parent => match schema.table? path.first with
      | none => .error (.unknownTable path.first)
      | some child => match Reduction.link? child parent.name path with
        | none => .error (.noRelationship child.name parent.name)
        | some link => .ok ⟨parent, child, link⟩

namespace Reduction

def cteName (r : Reduction) (id : NodeId) : String := "Annotated" ++ r.parent.name ++ id.render

def marker (r : Reduction) (reducer : Reducer) (id : NodeId) : String :=
  reducer.markerStem ++ r.child.name ++ id.render

def cte (r : Reduction) (reducer : Reducer) (id : NodeId) (joins : List Join) (condition : Term) :
    Cte where
  name := r.cteName id
  distinct := reducer.distinct
  id := ⟨r.parent.name, r.parent.id⟩
  marker := r.marker reducer id
  body :=
    { table := r.parent.name
      joins := ⟨.left, r.child.name, none, ⟨r.child.name, r.link.id⟩,
        ⟨r.parent.name, r.parent.id⟩⟩ :: joins
      condition := if reducer.inverts then .negation condition else condition }

/-- Joins the marked rows to those named `root`. Rows that do not go by the name of their table get
the marks under a name of their own, so that one reducer may serve several of them. -/
def join (r : Reduction) (id : NodeId) (root : String) : Join :=
  let name := r.cteName id
  let rename? := if root = r.parent.name then none else some (root ++ "." ++ name)
  ⟨.left, name, rename?, ⟨rename?.getD name, r.parent.id⟩, ⟨root, r.parent.id⟩⟩

/-- Without a predicate every child counts. -/
def condition (r : Reduction) (predicate? : Option (Build Term)) : Build Term :=
  predicate?.getD (pure (.test ⟨r.child.name, r.child.id⟩ .isPresent))

end Reduction

/-- The predicate is compiled on its own, over the table of the children. -/
def compileReduction (schema : Schema) (reducer : Reducer) (id : NodeId) (child : Expr NodeId)
    (predicate? : Option (Build Term)) : Build Term where
  run draft := match Reduction.resolve schema draft.table child with
    | .error e => (.error e, draft)
    | .ok r => match (r.condition predicate?).run (.ofTable r.child.name) with
      | (.error e, _) => (.error e, draft)
      | (.ok condition, nested) =>
        let join := r.join id draft.root
        let test := if reducer.wantsMarker then .isOne else .isNotOne
        (.ok (.test ⟨join.key, r.marker reducer id⟩ test),
          ((draft.addCtes nested.ctes).addCte
            (r.cte reducer id nested.joins condition)).addJoin join)

/-- The number in the names of a reducer call is that of its predicate, if there is one. -/
def compileReducer (schema : Schema) (reducer : Reducer) (id : NodeId) :
    List (Expr NodeId × Build Term) → Build Term
  | [(child, _)] => compileReduction schema reducer id child none
  | [(child, _), (e, predicate)] =>
    compileReduction schema reducer e.label child (some predicate)
  | arguments => Attempt.fail (.reducerArity reducer arguments.length)

/-- How the body of a spec is compiled for the rows that go by a given name. -/
abbrev Inline := Spec → String → Except CompileError Term × Draft

def compileSpec (schema : Schema) (inline : Inline) (name : String)
    (arguments : List (Expr NodeId × Build Term)) : Build Term :=
  match schema.spec? name with
  | none => Attempt.fail (.unknownFunction name)
  | some spec => match arguments with
    | [(_, argument)] => do
      let term ← argument
      match rowName? term.render with
      | none => Attempt.fail (.notRow name term)
      | some row => match inline spec row with
        | (.error e, _) => Attempt.fail e
        | (.ok predicate, nested) => do
          Attempt.update (·.absorb nested)
          pure predicate
    | _ => Attempt.fail (.specArity name arguments.length)

def compileCall (schema : Schema) (inline : Inline) (id : NodeId) (callee : Reference)
    (arguments : List (Expr NodeId × Build Term)) : Build Term :=
  match callee.single? with
  | none => Attempt.fail (.segmentCount callee)
  | some name => match Reducer.ofName? name with
    | some reducer => compileReducer schema reducer id arguments
    | none => compileSpec schema inline name arguments

def visit (schema : Schema) (inline : Inline) : Expr.Layer NodeId Term (Build Term) → Build Term
  | .null => pure .null
  | .boolean value => pure (.boolean value)
  | .number value => pure (.number value)
  | .string value => pure (.string value)
  | .reference path => compileReference schema path
  | .binary op left right => pure (.binary op left right)
  | .conjunction left right => pure (.conjunction left right)
  | .disjunction left right => pure (.disjunction left right)
  | .negation child => pure (.negation child)
  | .call id callee arguments => compileCall schema inline id callee arguments

/-- Compiles with calls of specs nested at most `depth` deep. -/
def compileWithin (schema : Schema) : Nat → Expr NodeId → Build Term
  | 0 => Expr.postorder (visit schema fun spec row =>
      (.error (.endlessCalls spec.name), .ofRow spec.table row))
  | depth + 1 => Expr.postorder (visit schema fun spec row =>
      (compileWithin schema depth spec.body).run (.ofRow spec.table row))

/-- Calls that nest deeper than there are specs go round in a circle, and only these do not end. -/
def compile (schema : Schema) (e : Expr NodeId) : Build Term :=
  compileWithin schema schema.specs.length e

def select (schema : Schema) (table : String) (e : Expr NodeId) : Except CompileError Statement :=
  match (compile schema e).run (.ofTable table) with
  | (.ok condition, draft) => .ok (draft.statement condition)
  | (.error e, _) => .error e

end RowSpec.Sql
