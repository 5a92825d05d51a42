import RowSpec.Decimal.Double
import RowSpec.Operator
import RowSpec.Text.Basic

/-! Expressions over the rows of tables. The nodes carry labels: a parser numbers them, and what
does not depend on the numbers is stated for labels of any kind. -/
namespace RowSpec

structure Reference where
  segments : List String
  deriving DecidableEq, Repr

namespace Reference

def splitPoints : List Char → List (List Char)
  | [] => [[]]
  | c :: cs =>
    if c = '.' then [] :: splitPoints cs
    else match splitPoints cs with
      | [] => [[c]]
      | part :: parts => (c :: part) :: parts

def ofText (text : String) : Reference := ⟨(splitPoints text.toList).map String.ofList⟩

def first (r : Reference) : String := r.segments.headD ""

def single? (r : Reference) : Option String :=
  match r.segments with
  | [name] => some name
  | _ => none

def render (r : Reference) : String := Text.joinWith "." r.segments

end Reference

structure NodeId where
  val : UInt32
  deriving DecidableEq, Inhabited, Repr

def NodeId.render (id : NodeId) : String := toString id.val.toNat

/-- How many node ids have been handed out, the first being 1. The count is a 32-bit word. -/
structure Counter where
  count : UInt32
  deriving DecidableEq, Repr

namespace Counter

def start : Counter := ⟨0⟩

def fresh (c : Counter) : NodeId := ⟨c.count + 1⟩

def next (c : Counter) : Counter := ⟨c.count + 1⟩

end Counter

/-- An expression with labels of type `ι`. The operator of a `binary` node is any; the parser writes
`and` and `or` as nodes of their own. -/
inductive Expr (ι : Type) where
  | null (label : ι)
  | boolean (label : ι) (value : Bool)
  | number (label : ι) (value : Double)
  | string (label : ι) (value : String)
  | reference (label : ι) (path : Reference)
  | binary (label : ι) (op : Operator) (left right : Expr ι)
  | conjunction (label : ι) (left right : Expr ι)
  | disjunction (label : ι) (left right : Expr ι)
  | negation (label : ι) (child : Expr ι)
  | call (label : ι) (callee : Reference) (arguments : List (Expr ι))
  deriving Repr, Inhabited

namespace Expr

variable {ι : Type}

def label : Expr ι → ι
  | .null label | .boolean label _ | .number label _ | .string label _ | .reference label _ => label
  | .binary label _ _ _ | .conjunction label _ _ | .disjunction label _ _ => label
  | .negation label _ | .call label _ _ => label

def combine (label : ι) : Operator → Expr ι → Expr ι → Expr ι
  | .and, left, right => .conjunction label left right
  | .or, left, right => .disjunction label left right
  | op, left, right => .binary label op left right

def reference? : Expr ι → Option Reference
  | .reference _ path => some path
  | _ => none

mutual
/-- Numbers the nodes in post-order: operands from left to right, then the node itself. -/
def withIds (c : Counter) : Expr ι → Expr NodeId × Counter
  | .null _ => (.null c.fresh, c.next)
  | .boolean _ value => (.boolean c.fresh value, c.next)
  | .number _ value => (.number c.fresh value, c.next)
  | .string _ value => (.string c.fresh value, c.next)
  | .reference _ path => (.reference c.fresh path, c.next)
  | .binary _ op left right =>
    let (left, c) := withIds c left
    let (right, c) := withIds c right
    (.binary c.fresh op left right, c.next)
  | .conjunction _ left right =>
    let (left, c) := withIds c left
    let (right, c) := withIds c right
    (.conjunction c.fresh left right, c.next)
  | .disjunction _ left right =>
    let (left, c) := withIds c left
    let (right, c) := withIds c right
    (.disjunction c.fresh left right, c.next)
  | .negation _ child =>
    let (child, c) := withIds c child
    (.negation c.fresh child, c.next)
  | .call _ callee arguments =>
    let (arguments, c) := withIdsAll c arguments
    (.call c.fresh callee arguments, c.next)

def withIdsAll (c : Counter) : List (Expr ι) → List (Expr NodeId) × Counter
  | [] => ([], c)
  | e :: es =>
    let (e, c) := withIds c e
    let (es, c) := withIdsAll c es
    (e :: es, c)
end

end Expr

end RowSpec
