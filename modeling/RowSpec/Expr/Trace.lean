import RowSpec.Attempt
import RowSpec.Expr.Traversal

/-! Logs of walks: what the two orders visit, one event a node. A limit on the length of the log
makes the visit behind it fail. -/
namespace RowSpec.Expr

inductive PostEvent where
  | null
  | boolean (value : Bool)
  | number (value : Double)
  | string (value : String)
  | reference (path : Reference)
  | binary (op : Operator) (left right : Nat)
  | conjunction (left right : Nat)
  | disjunction (left right : Nat)
  | negation (child : Nat)
  | call (id : NodeId) (callee : Reference) (arguments : Nat)
  deriving DecidableEq, Repr

inductive PreEvent where
  | null
  | boolean (value : Bool)
  | number (value : Double)
  | string (value : String)
  | reference (path : Reference)
  | binary (op : Operator) (left right : NodeId)
  | conjunction (left right : NodeId)
  | disjunction (left right : NodeId)
  | negation (child : NodeId)
  | call (callee : Reference) (arguments : Nat)
  deriving DecidableEq, Repr

structure LimitReached where
  deriving DecidableEq, Repr

abbrev Logged (ε : Type) := Attempt (List ε) LimitReached

def log {ε : Type} (limit : Option Nat) (event : ε) : Logged ε Unit := do
  let events ← Attempt.read
  if limit.any (· ≤ events.length) then Attempt.fail ⟨⟩ else Attempt.write (events ++ [event])

def sumWalks {ε : Type} : List (Logged ε Nat) → Logged ε Nat
  | [] => pure 0
  | walk :: walks => do
    let n ← walk
    let rest ← sumWalks walks
    pure (n + rest)

/-- Counts nodes. A call is logged before its arguments are walked, all else behind its operands. -/
def countVisit (limit : Option Nat) :
    Layer NodeId Nat (Logged PostEvent Nat) → Logged PostEvent Nat
  | .null => do log limit .null; pure 1
  | .boolean value => do log limit (.boolean value); pure 1
  | .number value => do log limit (.number value); pure 1
  | .string value => do log limit (.string value); pure 1
  | .reference path => do log limit (.reference path); pure 1
  | .binary op left right => do log limit (.binary op left right); pure (left + right + 1)
  | .conjunction left right => do log limit (.conjunction left right); pure (left + right + 1)
  | .disjunction left right => do log limit (.disjunction left right); pure (left + right + 1)
  | .negation child => do log limit (.negation child); pure (child + 1)
  | .call id callee arguments => do
    log limit (.call id callee arguments.length)
    let n ← sumWalks (arguments.map Prod.snd)
    pure (n + 1)

def tracePostorder (limit : Option Nat) (e : Expr NodeId) :
    Except LimitReached Nat × List PostEvent :=
  (e.postorder (countVisit limit)).run []

/-- Tracks depth: one more below an inner node, ten more below a call. -/
def depthVisit (limit : Option Nat) (depth : Nat) : Expr NodeId → Logged (Nat × PreEvent) Nat
  | .null _ => do log limit (depth, .null); pure depth
  | .boolean _ value => do log limit (depth, .boolean value); pure depth
  | .number _ value => do log limit (depth, .number value); pure depth
  | .string _ value => do log limit (depth, .string value); pure depth
  | .reference _ path => do log limit (depth, .reference path); pure depth
  | .binary _ op left right => do
    log limit (depth, .binary op left.label right.label); pure (depth + 1)
  | .conjunction _ left right => do
    log limit (depth, .conjunction left.label right.label); pure (depth + 1)
  | .disjunction _ left right => do
    log limit (depth, .disjunction left.label right.label); pure (depth + 1)
  | .negation _ child => do log limit (depth, .negation child.label); pure (depth + 1)
  | .call _ callee arguments => do
    log limit (depth, .call callee arguments.length); pure (depth + 10)

def tracePreorder (limit : Option Nat) (e : Expr NodeId) :
    Except LimitReached Nat × List (Nat × PreEvent) :=
  (e.preorder (depthVisit limit) 0).run []

end RowSpec.Expr
