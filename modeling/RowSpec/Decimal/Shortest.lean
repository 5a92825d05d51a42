import RowSpec.Decimal.Double
import RowSpec.Decimal.Numeral

/-! The shortest decimal that reads back as a given finite double. On each decimal grid, from the
coarsest on, the two neighbours of the exact value are tried; the first grid with a hit wins. The
finest grid holds the value itself, so there is always a hit. -/
namespace RowSpec.Decimal

/-- The decimal `coefficient * 10 ^ (scale - 1074)`. -/
structure Scaled where
  coefficient : Nat
  scale : Nat
  deriving DecidableEq, Repr

inductive Tie where
  | up
  | even
  deriving DecidableEq, Repr

/-- Units of 2 ^ -1074, counted in units of 10 ^ -1074. -/
def unitsToScale : Nat := Nat.pow 5 1074

def Scaled.rank (d : Scaled) : Nat :=
  Double.nearestRank (d.coefficient * Nat.pow 10 d.scale) unitsToScale

/-- Of the neighbours `lower` and `lower + 1` of `value / 10 ^ scale` the nearer one. -/
def nearer (tie : Tie) (value scale lower : Nat) : Nat :=
  let grid := Nat.pow 10 scale
  let r := value % grid
  if 2 * r < grid then lower
  else if grid < 2 * r then lower + 1
  else match tie with
    | .up => lower + 1
    | .even => if lower % 2 = 0 then lower else lower + 1

/-- Searches the grids of the given scale and below; `value` is in units of 10 ^ -1074. -/
def search (tie : Tie) (rank value : Nat) : Nat → Scaled
  | 0 => ⟨value, 0⟩
  | scale + 1 =>
    let lower := value / Nat.pow 10 (scale + 1)
    let below := decide ((Scaled.mk lower (scale + 1)).rank = rank)
    let above := decide ((Scaled.mk (lower + 1) (scale + 1)).rank = rank)
    if below && above then ⟨nearer tie value (scale + 1) lower, scale + 1⟩
    else if below then ⟨lower, scale + 1⟩
    else if above then ⟨lower + 1, scale + 1⟩
    else search tie rank value scale

/-- The scale of the leading digit or the one above: 0.30103 is the decimal logarithm of two, and on
the grid above the leading digit only the power of ten next to the value can be a hit. -/
def leadingScale (value : Nat) : Nat := value.log2 * 30103 / 100000 + 1

def shortest (tie : Tie) (rank : Nat) : Scaled :=
  let value := Double.units rank * unitsToScale
  search tie rank value (leadingScale value)

def stripZeros (ds : List Char) : List Char × Nat :=
  let zeros := (ds.reverse.takeWhile (· == '0')).length
  (ds.take (ds.length - zeros), zeros)

end RowSpec.Decimal
