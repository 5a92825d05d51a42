import RowSpec.Decimal.Numeral
import RowSpec.Json.Reader

/-! The value of a JSON number. An integer of 64 bits keeps its value; any other number is a double,
from the leading digits that fit into 64 bits and a power of ten. Both are rounded before they are
multiplied or divided, so the result may be off the nearest double in its last bit. -/
namespace RowSpec.Json

def mulRank (a b : Nat) : Nat :=
  Double.nearestRank (Double.units a * Double.units b) Double.unitsInOne

def divRank (a b : Nat) : Nat :=
  Double.nearestRank (Double.units a * Double.unitsInOne) (Double.units b)

def rankOfNat (n : Nat) : Nat := Double.nearestRank (n * Double.unitsInOne) 1

/-- Divides by the largest power of ten that is a double, while the exponent is below that power. -/
def divideDown (rank : Nat) (exponent : Nat) : Nat → Nat
  | 0 => divRank rank (rankOfNat (Nat.pow 10 exponent))
  | steps + 1 =>
    if exponent ≤ 308 then divRank rank (rankOfNat (Nat.pow 10 exponent))
    else if rank = 0 then 0
    else divideDown (divRank rank (rankOfNat (Nat.pow 10 308))) (exponent - 308) steps

def scaledRank? (significand : Nat) (exponent : Int) : Option Nat :=
  let rank := rankOfNat significand
  if exponent < 0 then some (divideDown rank exponent.natAbs (exponent.natAbs / 308))
  else if 308 < exponent then if rank = 0 then some 0 else none
  else
    let scaled := mulRank rank (rankOfNat (Nat.pow 10 exponent.natAbs))
    if scaled < Double.finiteCount then some scaled else none

def fits (significand : Nat) (c : Char) : Bool :=
  significand * 10 + Decimal.digitValue c < Nat.pow 2 64

/-- Appends digits to the significand while they fit, and counts those that were left out. -/
def appendDigits (significand : Nat) : List Char → Nat × Nat
  | [] => (significand, 0)
  | c :: cs =>
    if fits significand c then appendDigits (significand * 10 + Decimal.digitValue c) cs
    else (significand, cs.length + 1)

/-- A power of ten that is beyond 32 bits decides alone: the number is zero or out of range. -/
def exponentLimit : Nat := Nat.pow 2 31

structure Numeral where
  negative : Bool
  whole : List Char
  fraction : List Char
  exponent : Option (Bool × List Char)

def Numeral.significand (n : Numeral) : Nat × Int :=
  let (leading, omitted) := appendDigits 0 n.whole
  let (significand, skipped) := appendDigits leading n.fraction
  (significand, (omitted : Int) - (n.fraction.length - skipped : Nat))

def Numeral.rank? (n : Numeral) : Option Nat :=
  let (significand, exponent) := n.significand
  match n.exponent with
  | none => scaledRank? significand exponent
  | some (down, digits) =>
    let power := Decimal.ofDigits digits
    if exponentLimit ≤ power then if significand ≠ 0 ∧ !down then none else some 0
    else scaledRank? significand (if down then exponent - power else exponent + power)

/-- An integer if it is written as one and has 64 bits; minus zero is no integer. -/
def Numeral.integer? (n : Numeral) : Option Int :=
  let value := Decimal.ofDigits n.whole
  if n.fraction ≠ [] ∨ n.exponent.isSome then none
  else if n.negative then if 0 < value ∧ value ≤ Nat.pow 2 63 then some (-value) else none
  else if value < Nat.pow 2 64 then some value else none

def Numeral.found? (n : Numeral) : Option Found :=
  match n.integer? with
  | some value => some (.integer value)
  | none => match n.rank? with
    | some rank =>
      if h : rank < Double.finiteCount then some (.float (.finite n.negative ⟨rank, h⟩)) else none
    | none => none

def digitRow : Reader (List Char) := do
  match ← Attempt.read with
  | [] => Attempt.fail .truncated
  | c :: cs =>
    if c.isDigit then do
      dropDigits
      return (c :: cs).takeWhile Char.isDigit
    else Attempt.fail .malformed

def wholeDigits : Reader (List Char) := do
  match ← Attempt.read with
  | '0' :: rest => do
    Attempt.write rest
    if rest.head?.any Char.isDigit then Attempt.fail .malformed
    return ['0']
  | _ => digitRow

def fractionRow : Reader (List Char) := do
  match ← Attempt.read with
  | '.' :: rest => do Attempt.write rest; digitRow
  | _ => return []

def exponentRow : Reader (Option (Bool × List Char)) := do
  match ← Attempt.read with
  | [] => return none
  | c :: rest =>
    if c = 'e' ∨ c = 'E' then do
      Attempt.write rest
      let signed := rest.head?.any fun c => c == '+' || c == '-'
      if signed then drop 1
      return some (rest.head? == some '-', ← digitRow)
    else return none

def readNumber (negative : Bool) : Reader Found := do
  let numeral : Numeral := ⟨negative, ← wholeDigits, ← fractionRow, ← exponentRow⟩
  match numeral.found? with
  | some found => return found
  | none => Attempt.fail .malformed

end RowSpec.Json
