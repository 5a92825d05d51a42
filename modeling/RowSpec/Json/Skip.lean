import RowSpec.Json.String

/-! Values that are passed over: they have to be JSON, and nothing else is asked of them. -/
namespace RowSpec.Json

def skipDigits : Reader Unit := do
  if (← Attempt.read).head?.any Char.isDigit then dropDigits else Attempt.fail .malformed

def skipExponent : Reader Unit := do
  match ← Attempt.read with
  | c :: rest =>
    if c = 'e' ∨ c = 'E' then do
      Attempt.write rest
      if rest.head?.any (fun c => c == '+' || c == '-') then drop 1
      skipDigits
  | [] => pure ()

def skipFraction : Reader Unit := do
  match ← Attempt.read with
  | '.' :: rest => do Attempt.write rest; skipDigits
  | _ => pure ()

/-- A number behind its sign; a leading zero stands alone. -/
def skipNumber : Reader Unit := do
  match ← Attempt.read with
  | '0' :: rest => do
    Attempt.write rest
    if rest.head?.any Char.isDigit then Attempt.fail .malformed
  | _ => skipDigits
  skipFraction
  skipExponent

inductive Bracket where
  | list
  | object
  deriving DecidableEq

def Bracket.closing : Bracket → Char
  | .list => ']'
  | .object => '\x7d'

def colon : Reader Unit := do
  match ← peek? with
  | some ':' => drop 1
  | some _ => Attempt.fail .malformed
  | none => Attempt.fail .truncated

def skipKey : Reader Unit := do
  match ← peek? with
  | some '"' => do drop 1; skipString; colon
  | some _ => Attempt.fail .malformed
  | none => Attempt.fail .truncated

structure Skipping where
  brackets : List Bracket
  wanted : Bool

def Skipping.opened (s : Skipping) (bracket : Bracket) : Reader (Option Skipping) := do
  drop 1
  if (← peek?) = some bracket.closing then do
    drop 1
    return some ⟨s.brackets, false⟩
  if bracket = .object then skipKey
  return some ⟨bracket :: s.brackets, true⟩

def Skipping.value (s : Skipping) : Reader (Option Skipping) := do
  match ← peek? with
  | none => Attempt.fail .truncated
  | some '[' => s.opened .list
  | some '\x7b' => s.opened .object
  | some c =>
    if c = 'n' then do drop 1; word ['u', 'l', 'l']
    else if c = 't' then do drop 1; word ['r', 'u', 'e']
    else if c = 'f' then do drop 1; word ['a', 'l', 's', 'e']
    else if c = '"' then do drop 1; skipString
    else if c = '-' then do drop 1; skipNumber
    else if c.isDigit then skipNumber
    else Attempt.fail .malformed
    return some ⟨s.brackets, false⟩

def Skipping.step (s : Skipping) : Reader (Option Skipping) :=
  if s.wanted then s.value
  else match s.brackets with
    | [] => return none
    | bracket :: outer => do
      match ← peek? with
      | none => Attempt.fail .truncated
      | some c =>
        if c = ',' then do
          drop 1
          if bracket = .object then skipKey
          return some ⟨s.brackets, true⟩
        else if c = bracket.closing then do
          drop 1
          return some ⟨outer, false⟩
        else Attempt.fail .malformed

def skipValue : Reader Unit := do
  let _ ← repeatToEnd Skipping.step ⟨[], true⟩

end RowSpec.Json
