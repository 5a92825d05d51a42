import RowSpec.Decimal.Layout
import RowSpec.Expr.Basic
import RowSpec.Text.Quoted

/-! The text of an expression, with parentheses around every pair of operands. -/
namespace RowSpec.Expr

variable {ι : Type}

mutual
def render : Expr ι → String
  | .null _ => "null"
  | .boolean _ value => if value then "true" else "false"
  | .number _ value => value.render
  | .string _ value => Text.quote value
  | .reference _ path => path.render
  | .binary _ op left right => "(" ++ render left ++ " " ++ op.render ++ " " ++ render right ++ ")"
  | .conjunction _ left right => "(" ++ render left ++ " and " ++ render right ++ ")"
  | .disjunction _ left right => "(" ++ render left ++ " or " ++ render right ++ ")"
  | .negation _ child => "not(" ++ render child ++ ")"
  | .call _ callee arguments =>
    callee.render ++ "(" ++ Text.joinWith ", " (renderAll arguments) ++ ")"

def renderAll : List (Expr ι) → List String
  | [] => []
  | e :: es => render e :: renderAll es
end

end RowSpec.Expr
