import RowSpec.Text.Basic

/-! Binary operators: their classes, how tightly they bind and how they are written. -/
namespace RowSpec

inductive Operator where
  | mul
  | div
  | add
  | sub
  | lt
  | gt
  | le
  | ge
  | eq
  | ne
  | and
  | or
  deriving DecidableEq, Repr

namespace Operator

def isArithmetic : Operator → Bool
  | mul | div | add | sub => true
  | _ => false

def isEquality : Operator → Bool
  | eq | ne => true
  | _ => false

def isComparison : Operator → Bool
  | lt | gt | le | ge | eq | ne => true
  | _ => false

/-- The higher of two neighbouring operators takes the operand between them. -/
def precedence : Operator → Nat
  | mul | div => 40
  | add | sub => 20
  | lt | gt | le | ge | eq | ne => 10
  | and => 4
  | or => 2

def render : Operator → String
  | mul => "*"
  | div => "/"
  | add => "+"
  | sub => "-"
  | lt => "<"
  | gt => ">"
  | le => "<="
  | ge => ">="
  | eq => "="
  | ne => "!="
  | and => "and"
  | or => "or"

/-- The operators that are words, in any case. -/
def ofWord? (word : String) : Option Operator :=
  match Text.lower word with
  | "and" => some and
  | "or" => some or
  | _ => none

def all : List Operator := [mul, div, add, sub, lt, gt, le, ge, eq, ne, and, or]

def ofText? (text : String) : Option Operator := all.find? fun op => op.render == text

end Operator

end RowSpec
