import RowSpec.Json.Codec
import RowSpec.Json.Number
import RowSpec.Json.Skip
import RowSpec.Json.Writer

/-! Reading strings, lists and records from JSON texts. -/
namespace RowSpec.Json

variable {σ α : Type}

def describe : Reader Found := do
  match ← peek? with
  | none => Attempt.fail .malformed
  | some c =>
    if c = 'n' then do drop 1; word ['u', 'l', 'l']; return .null
    else if c = 't' then do drop 1; word ['r', 'u', 'e']; return .boolean true
    else if c = 'f' then do drop 1; word ['a', 'l', 's', 'e']; return .boolean false
    else if c = '-' then do drop 1; readNumber true
    else if c.isDigit then readNumber false
    else if c = '"' then do drop 1; return .string (← stringBody)
    else if c = '[' then return .sequence
    else if c = '\x7b' then return .map
    else Attempt.fail .malformed

def wrongType (expected : Expected) : Reader α := do
  Attempt.fail (.mismatch (.wrongType (← describe) expected))

def peek : Reader Char := do
  match ← peek? with
  | some c => return c
  | none => Attempt.fail .truncated

def readString : Reader String := do
  if (← peek) = '"' then do drop 1; stringBody else wrongType .string

def readOptional (value : Reader α) : Reader (Option α) := do
  if (← peek) = 'n' then do
    drop 1
    word ['u', 'l', 'l']
    return none
  else return some (← value)

/-- Whether a list has a further element; then the text stands at it. -/
def hasElement (first : Bool) : Reader Bool := do
  let c ← peek
  if c = ']' then return false
  else if first then return true
  else if c = ',' then do
    drop 1
    if (← peek) = ']' then Attempt.fail .malformed else return true
  else Attempt.fail .malformed

def closeList : Reader Unit := do
  if (← peek) = ']' then drop 1 else Attempt.fail .malformed

structure Standing (σ : Type) where
  state : σ
  first : Bool

def elementStep (element : σ → Option (Reader σ)) (s : Standing σ) :
    Reader (Option (Standing σ)) := do
  match element s.state with
  | none => return none
  | some value => if ← hasElement s.first then return some ⟨← value, false⟩ else return none

def readElements (element : σ → Option (Reader σ)) (start : σ) : Reader σ := do
  return (← repeatToEnd (elementStep element) ⟨start, true⟩).state

/-- The elements are all asked for, and those read so far come last first. -/
def collect (element : Reader α) (read : List α) : Option (Reader (List α)) :=
  some do return (← element) :: read

def readList (element : Reader α) : Reader (List α) := do
  if (← peek) = '[' then do
    drop 1
    let read ← readElements (collect element) []
    closeList
    return read.reverse
  else wrongType .sequence

def nextKey? (first : Bool) : Reader (Option String) := do
  let c ← peek
  if c = '\x7d' then return none
  else if first then
    if c = '"' then do drop 1; return some (← stringBody) else Attempt.fail .malformed
  else if c = ',' then do
    drop 1
    if (← peek) = '"' then do drop 1; return some (← stringBody) else Attempt.fail .malformed
  else Attempt.fail .malformed

def accept : Except Mismatch α → Reader α
  | .ok a => return a
  | .error m => Attempt.fail (.mismatch m)

def memberStep (member : σ → String → Except Mismatch (Reader σ)) (s : Standing σ) :
    Reader (Option (Standing σ)) := do
  match ← nextKey? s.first with
  | none => return none
  | some name => do
    let value ← accept (member s.state name)
    colon
    return some ⟨← value, false⟩

def readMembers (member : σ → String → Except Mismatch (Reader σ)) (start : σ) : Reader σ := do
  return (← repeatToEnd (memberStep member) ⟨start, true⟩).state

/-- What is missing is told at the end of the object or the list. -/
def readRecord (visitor : Visitor σ α) : Reader α := do
  let c ← peek
  if c = '[' then do
    drop 1
    let value ← accept (visitor.endList (← readElements visitor.element visitor.start))
    closeList
    return value
  else if c = '\x7b' then do
    drop 1
    let value ← accept (visitor.endObject (← readMembers visitor.member visitor.start))
    drop 1
    return value
  else wrongType (.record visitor.name)

def finish : Reader Unit := do
  if (← peek?).isSome then Attempt.fail .malformed

def codec : Codec where
  writeString := writeString
  writeList := writeList
  writeObject := writeObject
  readString := readString
  readOptional := readOptional
  readList := readList
  readRecord := readRecord
  skipValue := skipValue
  finish := finish

end RowSpec.Json
