import RowSpec.Text.Basic

/-! Types of expressions. `any` is the type of `null`; functions are what may be called. -/
namespace RowSpec

inductive Ty where
  | any
  | boolean
  | number
  | string
  | date
  | table (name : String)
  | function (returns : Ty) (parameters : List Ty)
  deriving Repr, Inhabited

namespace Ty

mutual
def decEq : (a b : Ty) → Decidable (a = b)
  | .any, .any | .boolean, .boolean | .number, .number | .string, .string | .date, .date =>
    isTrue rfl
  | .table a, .table b => decidable_of_iff (a = b) (by simp)
  | .function r ps, .function s qs =>
    have := decEq r s
    have := decEqAll ps qs
    decidable_of_iff (r = s ∧ ps = qs) (by simp)
  | .any, .boolean | .any, .number | .any, .string | .any, .date | .any, .table _
  | .any, .function _ _ | .boolean, .any | .boolean, .number | .boolean, .string | .boolean, .date
  | .boolean, .table _ | .boolean, .function _ _ | .number, .any | .number, .boolean
  | .number, .string | .number, .date | .number, .table _ | .number, .function _ _ | .string, .any
  | .string, .boolean | .string, .number | .string, .date | .string, .table _
  | .string, .function _ _ | .date, .any | .date, .boolean | .date, .number | .date, .string
  | .date, .table _ | .date, .function _ _ | .table _, .any | .table _, .boolean
  | .table _, .number | .table _, .string | .table _, .date | .table _, .function _ _
  | .function _ _, .any | .function _ _, .boolean | .function _ _, .number
  | .function _ _, .string | .function _ _, .date | .function _ _, .table _ => isFalse nofun

def decEqAll : (as bs : List Ty) → Decidable (as = bs)
  | [], [] => isTrue rfl
  | [], _ :: _ | _ :: _, [] => isFalse nofun
  | a :: as, b :: bs =>
    have := decEq a b
    have := decEqAll as bs
    decidable_of_iff (a = b ∧ as = bs) (by simp)
end

instance : DecidableEq Ty := decEq

mutual
def render : Ty → String
  | .any => "Any"
  | .boolean => "Boolean"
  | .number => "Number"
  | .string => "String"
  | .date => "Date"
  | .table name => name
  | .function returns parameters =>
    "(" ++ Text.joinWith ", " (renderAll parameters) ++ ") -> " ++ render returns

def renderAll : List Ty → List String
  | [] => []
  | t :: ts => render t :: renderAll ts
end

/-- The more specific of two types: `any` gives way, and all else has to be equal. -/
def coalesce (a b : Ty) : Option Ty :=
  if a = .any then some b
  else if b = .any then some a
  else if a = b then some a
  else none

def isFunction : Ty → Bool
  | .function _ _ => true
  | _ => false

/-- The types that `<`, `>`, `<=` and `>=` compare. -/
def isOrderable : Ty → Bool
  | .number | .string | .date => true
  | _ => false

end Ty

end RowSpec
