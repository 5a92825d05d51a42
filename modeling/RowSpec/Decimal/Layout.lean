import RowSpec.Decimal.Shortest

/-! Two ways to write a double: in full, with every digit before and behind the point, and in the
compact form in which very large and very small magnitudes carry an exponent. -/
namespace RowSpec.Decimal

def zeros (n : Nat) : List Char := List.replicate n '0'

/-- The digits before and behind the point of a decimal; the latter do not end in a zero. -/
def Scaled.parts (d : Scaled) : List Char × List Char :=
  let ds := digits d.coefficient
  if 1074 ≤ d.scale then (ds ++ zeros (d.scale - 1074), [])
  else
    let places := 1074 - d.scale
    let padded := zeros (places + 1 - ds.length) ++ ds
    (padded.take (padded.length - places), (stripZeros (padded.drop (padded.length - places))).1)

def positional (d : Scaled) : List Char :=
  match d.parts with
  | (whole, []) => whole
  | (whole, fraction) => whole ++ '.' :: fraction

def signed (negative : Bool) (text : List Char) : String :=
  String.ofList (if negative then '-' :: text else text)

/-- An exponent has a sign in any case. -/
def exponentSign (exponent : Int) : Char := if exponent < 0 then '-' else '+'

/-- Scientific form from 10 ^ 16 on and below 10 ^ -5; a whole number ends in a point and a zero. -/
def compact (d : Scaled) : List Char :=
  let (ds, dropped) := stripZeros (digits d.coefficient)
  let exponent : Int := (d.scale + dropped : Nat) - 1074
  let point : Int := ds.length + exponent
  if ds = [] then ['0', '.', '0']
  else if 0 ≤ exponent ∧ point ≤ 16 then ds ++ zeros exponent.toNat ++ ['.', '0']
  else if 0 < point ∧ point ≤ 16 then ds.take point.toNat ++ '.' :: ds.drop point.toNat
  else if -5 < point ∧ point ≤ 0 then '0' :: '.' :: zeros (-point).toNat ++ ds
  else
    let mantissa := match ds with
      | [] => []
      | [d] => [d]
      | d :: more => d :: '.' :: more
    mantissa ++ 'e' :: exponentSign (point - 1) :: (toString (point - 1).natAbs).toList

end RowSpec.Decimal

namespace RowSpec.Double

open Decimal

/-- The shortest decimal that reads back, in full; a half goes up. Zero keeps its sign. -/
def render : Double → String
  | .finite negative rank => signed negative (positional (shortest .up rank))
  | .infinite negative => signed negative ['i', 'n', 'f']
  | .nan => "NaN"

/-- The shortest decimal that reads back, in compact form; a half goes to the even digit. -/
def renderCompact : Double → String
  | .finite negative rank => signed negative (compact (shortest .even rank))
  | .infinite negative => signed negative ['i', 'n', 'f']
  | .nan => "NaN"

end RowSpec.Double
