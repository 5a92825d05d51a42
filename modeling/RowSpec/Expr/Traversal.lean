import RowSpec.Expr.Basic

/-! Two orders in which to walk an expression with effects. In pre-order a node hands an
accumulator down to its operands; in post-order the results of the operands come up to it. -/
namespace RowSpec.Expr

variable {ι α : Type} {m : Type → Type} [Monad m]

mutual
/-- Visits a node, then its operands from left to right, each with the accumulator that the visit
of the node returned. The result is that accumulator. -/
def preorder (visit : α → Expr ι → m α) (acc : α) : Expr ι → m α
  | .null label => visit acc (.null label)
  | .boolean label value => visit acc (.boolean label value)
  | .number label value => visit acc (.number label value)
  | .string label value => visit acc (.string label value)
  | .reference label path => visit acc (.reference label path)
  | .binary label op left right => do
    let inner ← visit acc (.binary label op left right)
    let _ ← preorder visit inner left
    let _ ← preorder visit inner right
    pure inner
  | .conjunction label left right => do
    let inner ← visit acc (.conjunction label left right)
    let _ ← preorder visit inner left
    let _ ← preorder visit inner right
    pure inner
  | .disjunction label left right => do
    let inner ← visit acc (.disjunction label left right)
    let _ ← preorder visit inner left
    let _ ← preorder visit inner right
    pure inner
  | .negation label child => do
    let inner ← visit acc (.negation label child)
    let _ ← preorder visit inner child
    pure inner
  | .call label callee arguments => do
    let inner ← visit acc (.call label callee arguments)
    preorderAll visit inner arguments
    pure inner

def preorderAll (visit : α → Expr ι → m α) (acc : α) : List (Expr ι) → m Unit
  | [] => pure ()
  | e :: es => do
    let _ ← preorder visit acc e
    preorderAll visit acc es
end

/-- A node as post-order meets it: the results of its operands stand in their places. The arguments
of a call have not been walked; each comes with the walk `β` that the callee may run. -/
inductive Layer (ι α β : Type) where
  | null
  | boolean (value : Bool)
  | number (value : Double)
  | string (value : String)
  | reference (path : Reference)
  | binary (op : Operator) (left right : α)
  | conjunction (left right : α)
  | disjunction (left right : α)
  | negation (child : α)
  | call (label : ι) (callee : Reference) (arguments : List (Expr ι × β))

mutual
def postorder (visit : Layer ι α (m α) → m α) : Expr ι → m α
  | .null _ => visit .null
  | .boolean _ value => visit (.boolean value)
  | .number _ value => visit (.number value)
  | .string _ value => visit (.string value)
  | .reference _ path => visit (.reference path)
  | .binary _ op left right => do
    let l ← postorder visit left
    let r ← postorder visit right
    visit (.binary op l r)
  | .conjunction _ left right => do
    let l ← postorder visit left
    let r ← postorder visit right
    visit (.conjunction l r)
  | .disjunction _ left right => do
    let l ← postorder visit left
    let r ← postorder visit right
    visit (.disjunction l r)
  | .negation _ child => do
    let c ← postorder visit child
    visit (.negation c)
  | .call label callee arguments => visit (.call label callee (postorderAll visit arguments))

def postorderAll (visit : Layer ι α (m α) → m α) : List (Expr ι) → List (Expr ι × m α)
  | [] => []
  | e :: es => (e, postorder visit e) :: postorderAll visit es
end

end RowSpec.Expr
