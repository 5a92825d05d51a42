import RowSpec.Decimal.Layout
import RowSpec.Operator
import RowSpec.Text.Quoted

/-! Conditions and scalars of the generated SQL. Names stand in brackets; every pair of operands
stands in parentheses. -/
namespace RowSpec.Sql

def bracket (name : String) : String := "[" ++ name ++ "]"

structure Column where
  qualifier : String
  name : String
  deriving DecidableEq, Repr

def Column.render (c : Column) : String := bracket c.qualifier ++ "." ++ bracket c.name

inductive Test where
  | isOne
  | isNotOne
  | isPresent
  deriving DecidableEq, Repr

def Test.render : Test → String
  | .isOne => " = 1"
  | .isNotOne => " != 1"
  | .isPresent => " IS NOT NULL"

inductive Term where
  | null
  | boolean (value : Bool)
  | number (value : Double)
  | string (value : String)
  | column (column : Column)
  | test (column : Column) (test : Test)
  | row (qualifier : String)
  | binary (op : Operator) (left right : Term)
  | conjunction (left right : Term)
  | disjunction (left right : Term)
  | negation (child : Term)
  deriving DecidableEq, Repr

def Term.render : Term → String
  | .null => "NULL"
  | .boolean value => if value then "TRUE" else "FALSE"
  | .number value => value.render
  | .string value => Text.quote value
  | .column c => c.render
  | .test c t => c.render ++ t.render
  | .row qualifier => bracket qualifier
  | .binary op left right => "(" ++ left.render ++ " " ++ op.render ++ " " ++ right.render ++ ")"
  | .conjunction left right => "(" ++ left.render ++ " AND " ++ right.render ++ ")"
  | .disjunction left right => "(" ++ left.render ++ " OR " ++ right.render ++ ")"
  | .negation child => "NOT(" ++ child.render ++ ")"

/-- Whether a bracket closes, a point follows, and another bracket opens. -/
def hasQualifier : List Char → Bool
  | [] => false
  | ']' :: '.' :: '[' :: _ => true
  | _ :: cs => hasQualifier cs

def rowName? (text : String) : Option String :=
  match text.toList with
  | '[' :: cs => match cs.reverse with
    | ']' :: name =>
      if hasQualifier name.reverse then none else some (String.ofList name.reverse)
    | _ => none
  | _ => none

end RowSpec.Sql
