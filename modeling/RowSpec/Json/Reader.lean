import RowSpec.Attempt
import RowSpec.Json.Problem

/-! Reading JSON as a stream: the first problem in the text is the one reported. -/
namespace RowSpec.Json

abbrev Reader := Attempt (List Char) Problem

def isSpace (c : Char) : Bool := c == ' ' || c == '\n' || c == '\t' || c == '\r'

/-- The next character that is no space; it is not taken. -/
def peek? : Reader (Option Char) := do
  Attempt.update (·.dropWhile isSpace)
  return (← Attempt.read).head?

def drop (n : Nat) : Reader Unit := Attempt.update (·.drop n)

def dropDigits : Reader Unit := Attempt.update (·.dropWhile Char.isDigit)

/-- The rest of a word whose first character decided that it is that word. -/
def word : List Char → Reader Unit
  | [] => pure ()
  | c :: expected => do
    match ← Attempt.read with
    | [] => Attempt.fail .truncated
    | d :: rest => if c = d then do Attempt.write rest; word expected else Attempt.fail .malformed

def repeatSteps {σ : Type} (step : σ → Reader (Option σ)) : Nat → σ → Reader σ
  | 0, _ => Attempt.fail .malformed
  | n + 1, s => do
    match ← step s with
    | none => return s
    | some s => repeatSteps step n s

/-- Every step but the last takes some of the text, so its length is a bound for their number. -/
def repeatToEnd {σ : Type} (step : σ → Reader (Option σ)) (s : σ) : Reader σ := do
  repeatSteps step ((← Attempt.read).length + 1) s

end RowSpec.Json
