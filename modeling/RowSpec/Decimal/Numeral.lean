import RowSpec.Decimal.Double

/-! Numerals: rows of decimal digits, the natural numbers they denote, and the doubles that numerals
with a sign and a point are read as. -/
namespace RowSpec.Decimal

def digitValue (c : Char) : Nat := c.toNat - '0'.toNat

def ofDigits (ds : List Char) : Nat := ds.foldl (fun n c => 10 * n + digitValue c) 0

def digits (n : Nat) : List Char := Nat.toDigits 10 n

def splitSign : List Char → Bool × List Char
  | '-' :: cs => (true, cs)
  | '+' :: cs => (false, cs)
  | cs => (false, cs)

/-- The double nearest to a numeral without an exponent. There has to be a digit before or behind
the point, and nothing but digits on either side. -/
def parse? (text : List Char) : Option Double :=
  let (negative, unsigned) := splitSign text
  let whole := unsigned.takeWhile Char.isDigit
  match unsigned.dropWhile Char.isDigit with
  | [] => if whole = [] then none else some (.ofDecimal negative (ofDigits whole) 0)
  | '.' :: fraction =>
    if whole ++ fraction ≠ [] ∧ fraction.all Char.isDigit then
      some (.ofDecimal negative (ofDigits (whole ++ fraction)) fraction.length)
    else none
  | _ => none

end RowSpec.Decimal
