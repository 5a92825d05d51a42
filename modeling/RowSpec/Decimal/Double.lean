/-! Double precision numbers, by sign and rank: the finite magnitudes in increasing order have
ranks 0, 1, 2, … with zero first. A rank is the bit pattern without its sign, and its value is a
whole number of units of 2 ^ -1074, so reading a decimal is a division rounded to nearest. -/
namespace RowSpec

/-- The number of ranks between one power of two and the next. -/
def Double.binade : Nat := Nat.pow 2 52

def Double.finiteCount : Nat := 2047 * Double.binade

inductive Double where
  | finite (negative : Bool) (rank : Fin Double.finiteCount)
  | infinite (negative : Bool)
  | nan
  deriving DecidableEq, Repr

namespace Double

def unitsInOne : Nat := Nat.pow 2 1074

/-- The magnitude of a rank in units of 2 ^ -1074. -/
def units (rank : Nat) : Nat :=
  if rank < binade then rank else (binade + rank % binade) * Nat.pow 2 (rank / binade - 1)

/-- The quotient rounded to the nearest integer, a half to the even one. -/
def divRound (num den : Nat) : Nat :=
  let q := num / den
  let r := num % den
  if 2 * r < den then q
  else if den < 2 * r then q + 1
  else if q % 2 = 0 then q else q + 1

/-- The rank nearest to `num / den` units, a half to the even rank. The ranks of a
binade stand 2 ^ shift units apart, and the shift grows by one from each binade to the next. -/
def nearestRank (num den : Nat) : Nat :=
  let shift := (num / den).log2 - 52
  shift * binade + divRound num (den * Nat.pow 2 shift)

def ofUnits (negative : Bool) (num den : Nat) : Double :=
  if h : nearestRank num den < finiteCount then .finite negative ⟨nearestRank num den, h⟩
  else .infinite negative

def ofDecimal (negative : Bool) (coefficient places : Nat) : Double :=
  ofUnits negative (coefficient * unitsInOne) (Nat.pow 10 places)

def ofBits (bits : UInt64) : Double :=
  let negative := Nat.pow 2 63 ≤ bits.toNat
  let rank := bits.toNat % Nat.pow 2 63
  if h : rank < finiteCount then .finite negative ⟨rank, h⟩
  else if rank = finiteCount then .infinite negative
  else .nan

def isFinite : Double → Bool
  | .finite _ _ => true
  | _ => false

end Double

end RowSpec
