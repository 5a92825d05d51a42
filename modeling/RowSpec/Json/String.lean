import RowSpec.Json.Reader
import RowSpec.Text.Basic

/-! JSON strings. An escape by number gives a 16-bit unit; a character beyond them takes a pair. -/
namespace RowSpec.Json

inductive Piece where
  | char (c : Char)
  | unit (code : Nat)

inductive Ending where
  | closed (rest : List Char)
  | broken (problem : Problem)

def hexValue? (c : Char) : Option Nat :=
  if '0' ≤ c ∧ c ≤ '9' then some (c.toNat - '0'.toNat)
  else if 'a' ≤ c ∧ c ≤ 'f' then some (c.toNat - 'a'.toNat + 10)
  else if 'A' ≤ c ∧ c ≤ 'F' then some (c.toNat - 'A'.toNat + 10)
  else none

def hexUnit? (a b c d : Char) : Option Nat := do
  return (((← hexValue? a) * 16 + (← hexValue? b)) * 16 + (← hexValue? c)) * 16 + (← hexValue? d)

def escape? : Char → Option Char
  | '"' => some '"'
  | '\\' => some '\\'
  | '/' => some '/'
  | 'b' => some '\x08'
  | 'f' => some '\x0c'
  | 'n' => some '\n'
  | 'r' => some '\r'
  | 't' => some '\t'
  | _ => none

def Piece.before (piece : Piece) (more : List Piece × Ending) : List Piece × Ending :=
  (piece :: more.1, more.2)

/-- The pieces of a string behind its opening quote. A number in an escape takes four bytes. -/
def pieces : List Char → List Piece × Ending
  | [] => ([], .broken .truncated)
  | '"' :: rest => ([], .closed rest)
  | '\\' :: 'u' :: a :: b :: c :: d :: rest =>
    match hexUnit? a b c d with
    | some code => (Piece.unit code).before (pieces rest)
    | none => ([], .broken .malformed)
  | '\\' :: 'u' :: rest =>
    ([], .broken (if Text.byteCount rest < 4 then .truncated else .malformed))
  | '\\' :: c :: rest =>
    match escape? c with
    | some c => (Piece.char c).before (pieces rest)
    | none => ([], .broken .malformed)
  | ['\\'] => ([], .broken .truncated)
  | c :: rest => if c < ' ' then ([], .broken .malformed) else (Piece.char c).before (pieces rest)

def isLead (code : Nat) : Bool := 0xD800 ≤ code && code ≤ 0xDBFF

def isTrail (code : Nat) : Bool := 0xDC00 ≤ code && code ≤ 0xDFFF

def pairValue (lead trail : Nat) : Nat := (lead - 0xD800) * 0x400 + (trail - 0xDC00) + 0x10000

/-- The characters of a string: two units that form a pair are one character, and a unit of a pair
must not stand alone. -/
def characters (ending : Ending) : List Piece → Except Problem (List Char × List Char)
  | [] => match ending with
    | .closed rest => .ok ([], rest)
    | .broken problem => .error problem
  | .char c :: more => (characters ending more).map fun p => (c :: p.1, p.2)
  | [.unit code] =>
    if isTrail code then .error .malformed
    else match ending with
      | .closed rest =>
        if isLead code then .error .malformed else .ok ([Char.ofNat code], rest)
      | .broken problem => .error problem
  | .unit code :: .unit next :: more =>
    if isTrail code then .error .malformed
    else if isLead code then
      if isTrail next then
        (characters ending more).map fun p => (Char.ofNat (pairValue code next) :: p.1, p.2)
      else .error .malformed
    else (characters ending (.unit next :: more)).map fun p => (Char.ofNat code :: p.1, p.2)
  | .unit code :: .char c :: more =>
    if isTrail code || isLead code then .error .malformed
    else (characters ending more).map fun p => (Char.ofNat code :: c :: p.1, p.2)

def stringBody : Reader String where
  run cs := match characters (pieces cs).2 (pieces cs).1 with
    | .ok (text, rest) => (.ok (String.ofList text), rest)
    | .error problem => (.error problem, cs)

/-- A string that is not needed; units of pairs are not looked at. -/
def skipString : Reader Unit where
  run cs := match (pieces cs).2 with
    | .closed rest => (.ok (), rest)
    | .broken problem => (.error problem, cs)

end RowSpec.Json
