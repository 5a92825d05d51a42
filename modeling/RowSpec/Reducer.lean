import RowSpec.Text.Basic

/-! Reducers: predicates on the children of a row. Each is decided by a marker, set on the rows
that have a child of a certain kind. -/
namespace RowSpec

inductive Reducer where
  | any
  | none
  | all
  deriving DecidableEq, Repr

namespace Reducer

def ofName? (name : String) : Option Reducer :=
  match Text.lower name with
  | "any" => some .any
  | "none" => some .none
  | "all" => some .all
  | _ => Option.none

def name : Reducer → String
  | .any => "ANY"
  | .none => "NONE"
  | .all => "ALL"

/-- What the name of the marker starts with. -/
def markerStem : Reducer → String
  | .any => "Any"
  | .none => "No"
  | .all => "AnyNot"

/-- `all` looks for a child that fails the predicate. -/
def inverts : Reducer → Bool
  | .all => true
  | _ => false

def distinct : Reducer → Bool
  | .all => true
  | _ => false

/-- Whether a row passes if its marker is set, and not if it is unset. -/
def wantsMarker : Reducer → Bool
  | .any => true
  | _ => false

end Reducer

end RowSpec
