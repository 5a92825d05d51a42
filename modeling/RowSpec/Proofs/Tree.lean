import RowSpec.Expr.Traversal

/-! Expressions as trees: induction through the arguments of calls, the nodes below a node, and
the shape that is left when the labels are taken off. -/
namespace RowSpec.Expr

variable {ι : Type}

/-- In the case of a call the hypothesis holds of every argument. -/
@[elab_as_elim]
theorem induction {motive : Expr ι → Prop}
    (null : ∀ label, motive (.null label))
    (boolean : ∀ label value, motive (.boolean label value))
    (number : ∀ label value, motive (.number label value))
    (string : ∀ label value, motive (.string label value))
    (reference : ∀ label path, motive (.reference label path))
    (binary : ∀ label op left right, motive left → motive right →
      motive (.binary label op left right))
    (conjunction : ∀ label left right, motive left → motive right →
      motive (.conjunction label left right))
    (disjunction : ∀ label left right, motive left → motive right →
      motive (.disjunction label left right))
    (negation : ∀ label child, motive child → motive (.negation label child))
    (call : ∀ label callee arguments, (∀ a ∈ arguments, motive a) →
      motive (.call label callee arguments))
    (e : Expr ι) : motive e :=
  @Expr.rec ι motive (fun es => ∀ a ∈ es, motive a) null boolean number string reference binary
    conjunction disjunction negation call (fun _ h => nomatch h)
    (fun _ _ he hes => List.forall_mem_cons.mpr ⟨he, hes⟩) e

def children : Expr ι → List (Expr ι)
  | .binary _ _ left right => [left, right]
  | .conjunction _ left right => [left, right]
  | .disjunction _ left right => [left, right]
  | .negation _ child => [child]
  | .call _ _ arguments => arguments
  | _ => []

theorem induction_children {motive : Expr ι → Prop}
    (step : ∀ e : Expr ι, (∀ child ∈ e.children, motive child) → motive e) (e : Expr ι) :
    motive e := by
  induction e using induction with
  | binary label op left right hl hr | conjunction label left right hl hr
  | disjunction label left right hl hr =>
    apply step
    simp only [children, List.forall_mem_cons]
    exact ⟨hl, hr, fun _ h => nomatch h⟩
  | negation label child hc =>
    apply step
    exact List.forall_mem_singleton.mpr hc
  | call label callee arguments ih => exact step _ ih
  | _ => exact step _ fun _ h => nomatch h

mutual
def erase : Expr ι → Expr Unit
  | .null _ => .null ()
  | .boolean _ value => .boolean () value
  | .number _ value => .number () value
  | .string _ value => .string () value
  | .reference _ path => .reference () path
  | .binary _ op left right => .binary () op (erase left) (erase right)
  | .conjunction _ left right => .conjunction () (erase left) (erase right)
  | .disjunction _ left right => .disjunction () (erase left) (erase right)
  | .negation _ child => .negation () (erase child)
  | .call _ callee arguments => .call () callee (eraseAll arguments)

def eraseAll : List (Expr ι) → List (Expr Unit)
  | [] => []
  | e :: es => erase e :: eraseAll es
end

mutual
def nodes : Expr ι → List (Expr ι)
  | .binary label op left right => .binary label op left right :: (nodes left ++ nodes right)
  | .conjunction label left right => .conjunction label left right :: (nodes left ++ nodes right)
  | .disjunction label left right => .disjunction label left right :: (nodes left ++ nodes right)
  | .negation label child => .negation label child :: nodes child
  | .call label callee arguments => .call label callee arguments :: nodesAll arguments
  | e => [e]

def nodesAll : List (Expr ι) → List (Expr ι)
  | [] => []
  | e :: es => nodes e ++ nodesAll es
end

def references (e : Expr ι) : List Reference := e.nodes.filterMap reference?

def callees (e : Expr ι) : List Reference :=
  e.nodes.filterMap fun
    | .call _ callee _ => some callee
    | _ => none

theorem mem_references {e : Expr ι} {path : Reference} :
    path ∈ e.references ↔ ∃ label, .reference label path ∈ e.nodes := by
  unfold references
  rw [List.mem_filterMap]
  constructor
  · rintro ⟨n, hn, hp⟩
    cases n with
    | reference label p => cases hp; exact ⟨label, hn⟩
    | _ => cases hp
  · rintro ⟨label, hn⟩
    exact ⟨_, hn, rfl⟩

theorem mem_callees {e : Expr ι} {callee : Reference} :
    callee ∈ e.callees ↔ ∃ label arguments, .call label callee arguments ∈ e.nodes := by
  unfold callees
  rw [List.mem_filterMap]
  constructor
  · rintro ⟨n, hn, hc⟩
    cases n with
    | call label c arguments => cases hc; exact ⟨label, arguments, hn⟩
    | _ => cases hc
  · rintro ⟨label, arguments, hn⟩
    exact ⟨_, hn, rfl⟩

theorem eraseAll_eq_map (es : List (Expr ι)) : eraseAll es = es.map erase := by
  induction es with
  | nil => rfl
  | cons e es ih => simp [eraseAll, ih]

@[simp] theorem erase_combine (label : ι) (op : Operator) (left right : Expr ι) :
    (combine label op left right).erase = combine () op left.erase right.erase := by
  cases op <;> simp [combine, erase]

theorem mem_nodesAll {es : List (Expr ι)} {n : Expr ι} :
    n ∈ nodesAll es ↔ ∃ e ∈ es, n ∈ e.nodes := by
  induction es with
  | nil => simp [nodesAll]
  | cons e es ih => simp [nodesAll, ih]

theorem nodesAll_eq_flatMap (es : List (Expr ι)) : nodesAll es = es.flatMap nodes := by
  induction es with
  | nil => rfl
  | cons e es ih => rw [nodesAll, ih, List.flatMap_cons]

theorem nodes_eq (e : Expr ι) : e.nodes = e :: e.children.flatMap nodes := by
  cases e with
  | call _ _ arguments => rw [nodes, children, nodesAll_eq_flatMap]
  | _ => simp [nodes, children]

theorem self_mem_nodes (e : Expr ι) : e ∈ e.nodes := by
  cases e <;> simp [nodes]

theorem mem_nodes_call {label : ι} {callee : Reference} {arguments : List (Expr ι)} {n : Expr ι} :
    n ∈ (call label callee arguments).nodes ↔
      n = .call label callee arguments ∨ ∃ a ∈ arguments, n ∈ a.nodes := by
  simp [nodes, mem_nodesAll]

theorem mem_nodes_argument {label : ι} {callee : Reference} {arguments : List (Expr ι)}
    {a : Expr ι} (ha : a ∈ arguments) : ∀ n ∈ a.nodes, n ∈ (call label callee arguments).nodes :=
  fun _ hn => mem_nodes_call.mpr (Or.inr ⟨a, ha, hn⟩)

theorem postorderAll_eq_map {α : Type} {m : Type → Type} [Monad m]
    (visit : Layer ι α (m α) → m α) (es : List (Expr ι)) :
    postorderAll visit es = es.map fun e => (e, e.postorder visit) := by
  induction es with
  | nil => rfl
  | cons e es ih => simp [postorderAll, ih]

theorem nodes_erase (e : Expr ι) : e.erase.nodes = e.nodes.map erase := by
  induction e using induction with
  | binary _ _ _ _ hl hr | conjunction _ _ _ hl hr | disjunction _ _ _ hl hr =>
    simp [erase, nodes, hl, hr]
  | negation _ _ hc => simp [erase, nodes, hc]
  | call _ _ arguments ih =>
    have all : nodesAll (eraseAll arguments) = (nodesAll arguments).map erase := by
      induction arguments with
      | nil => rfl
      | cons a as iha =>
        obtain ⟨ha, has⟩ := List.forall_mem_cons.mp ih
        simp [eraseAll, nodesAll, ha, iha has]
    simp [erase, nodes, all]
  | _ => simp [erase, nodes]

theorem erase_withIds (t : Expr Unit) : ∀ c, (t.withIds c).1.erase = t := by
  induction t using induction with
  | binary _ _ _ _ hl hr | conjunction _ _ _ hl hr | disjunction _ _ _ hl hr =>
    intro c; simp [erase, withIds, hl, hr]
  | negation _ _ hc => intro c; simp [erase, withIds, hc]
  | call _ _ arguments ih =>
    have all : ∀ c, eraseAll (withIdsAll c arguments).1 = arguments := by
      induction arguments with
      | nil => intro c; rfl
      | cons a as iha =>
        intro c
        obtain ⟨ha, has⟩ := List.forall_mem_cons.mp ih
        simp [withIdsAll, eraseAll, ha, iha has]
    intro c; simp [erase, withIds, all]
  | _ => intro c; simp [erase, withIds]

end RowSpec.Expr
