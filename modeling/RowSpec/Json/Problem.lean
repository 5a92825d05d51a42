import RowSpec.Decimal.Layout
import RowSpec.Text.Visible

/-! What can be wrong with a JSON text that is read into records of a known shape. -/
namespace RowSpec.Json

inductive Found where
  | null
  | boolean (value : Bool)
  | integer (value : Int)
  | float (value : Double)
  | string (value : String)
  | sequence
  | map
  deriving DecidableEq, Repr

def Found.render : Found → String
  | .null => "null"
  | .boolean value => "boolean `" ++ (if value then "true" else "false") ++ "`"
  | .integer value => "integer `" ++ toString value ++ "`"
  | .float value => "floating point `" ++ value.renderCompact ++ "`"
  | .string value => "string " ++ Text.visible value
  | .sequence => "sequence"
  | .map => "map"

inductive Expected where
  | string
  | sequence
  | record (name : String)
  deriving DecidableEq, Repr

def Expected.render : Expected → String
  | .string => "a string"
  | .sequence => "a sequence"
  | .record name => "struct " ++ name

/-- JSON that does not have the shape asked for. A record written as a list is too short if a key
that it needs, the one at `index` of its `size` keys, is not there. -/
inductive Mismatch where
  | wrongType (found : Found) (expected : Expected)
  | missingKey (key : String)
  | repeatedKey (key : String)
  | tooShort (index : Nat) (record : String) (size : Nat)
  deriving DecidableEq, Repr

def Mismatch.message : Mismatch → String
  | .wrongType found expected =>
    "invalid type: " ++ found.render ++ ", expected " ++ expected.render
  | .missingKey key => "missing field `" ++ key ++ "`"
  | .repeatedKey key => "duplicate field `" ++ key ++ "`"
  | .tooShort index record size =>
    "invalid length " ++ toString index ++ ", expected struct " ++ record ++ " with " ++
      toString size ++ " elements"

inductive Problem where
  | malformed
  | truncated
  | mismatch (m : Mismatch)
  deriving DecidableEq, Repr

def Problem.reason : Problem → String
  | .malformed => "malformed text"
  | .truncated => "text ends too early"
  | .mismatch m => m.message

end RowSpec.Json
