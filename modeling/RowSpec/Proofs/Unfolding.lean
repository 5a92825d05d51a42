import RowSpec.Proofs.Requests

/-! The compiler without its bound. Over expressions with the shape of checked ones whose calls of
specs end, it is one recursion: through the operands of a node, into the predicate of a reducer, and
from the call of a spec into the body. -/
namespace RowSpec

variable {schema : Schema} {e : Expr NodeId} {n : Nat}

namespace Expr

theorem mem_nodes_operand {o : Expr NodeId} (ho : o ∈ e.operands) : ∀ k ∈ o.nodes, k ∈ e.nodes := by
  intro k hk
  cases e with
  | binary | conjunction | disjunction =>
    rcases List.mem_pair.mp ho with rfl | rfl
    · simp [nodes, hk]
    · simp [nodes, hk]
  | negation =>
    obtain rfl := List.mem_singleton.mp ho
    simp [nodes, hk]
  | _ => cases ho

theorem NestsWithin.of_subset {a : Expr NodeId} (h : e.NestsWithin schema n)
    (hsub : ∀ x ∈ a.nodes, x ∈ e.nodes) : a.NestsWithin schema n := by
  cases n with
  | zero => exact fun s hs => h s (hs.of_subset hsub)
  | succ n => exact fun s hs => h s (hs.of_subset hsub)

end Expr

namespace Sql

def Term.constant? : Expr NodeId → Option Term
  | .null _ => some .null
  | .boolean _ value => some (.boolean value)
  | .number _ value => some (.number value)
  | .string _ value => some (.string value)
  | _ => none

def Term.combine? : Expr NodeId → Option (Term → Term → Term)
  | .binary _ op _ _ => some (.binary op)
  | .conjunction _ _ _ => some .conjunction
  | .disjunction _ _ _ => some .disjunction
  | _ => none

def inlined (schema : Schema) : Inline := fun spec row =>
  (compile schema spec.body).run (.ofRow spec.table row)

section equations

variable {inline : Inline} {label : NodeId} {left right child predicate : Expr NodeId}
  {callee : Reference}

theorem postorder_constant {term : Term} (ht : Term.constant? e = some term) :
    e.postorder (visit schema inline) = pure term := by
  cases e <;> cases ht <;> rfl

theorem postorder_operands {f : Term → Term → Term} (hf : Term.combine? e = some f)
    (ho : e.operands = [left, right]) : e.postorder (visit schema inline) = (do
      let l ← left.postorder (visit schema inline)
      let r ← right.postorder (visit schema inline)
      pure (f l r)) := by
  cases e <;> cases hf <;> cases ho <;> rfl

theorem postorder_reducer {reducer : Reducer} (hr : callee.reducer? = some reducer)
    (arguments : List (Expr NodeId)) :
    (Expr.call label callee arguments).postorder (visit schema inline) =
      compileReducer schema reducer label
        (arguments.map fun a => (a, a.postorder (visit schema inline))) := by
  obtain ⟨name, hname, hred⟩ := Option.bind_eq_some_iff.mp hr
  simp only [Expr.postorder, visit, compileCall, hname, hred, Expr.postorderAll_eq_map]

theorem postorder_spec {name : String} (hname : callee.single? = some name)
    (hr : callee.reducer? = none) (arguments : List (Expr NodeId)) :
    (Expr.call label callee arguments).postorder (visit schema inline) =
      compileSpec schema inline name
        (arguments.map fun a => (a, a.postorder (visit schema inline))) := by
  rw [Reference.reducer?_of_single? hname] at hr
  simp only [Expr.postorder, visit, compileCall, hname, hr, Expr.postorderAll_eq_map]

theorem postorder_callee {spec : Spec} (hs : schema.callee? callee = some spec)
    (arguments : List (Expr NodeId)) :
    (Expr.call label callee arguments).postorder (visit schema inline) =
      compileSpec schema inline spec.name
        (arguments.map fun a => (a, a.postorder (visit schema inline))) := by
  obtain ⟨hname, hred, _⟩ := Schema.callee?_eq_some.mp hs
  exact postorder_spec hname ((Reference.reducer?_of_single? hname).trans hred) arguments

theorem exists_compile_eq_postorder (schema : Schema) :
    ∃ inline, ∀ e, compile schema e = e.postorder (visit schema inline) := by
  unfold compile
  cases schema.specs.length with
  | zero => exact ⟨_, fun _ => rfl⟩
  | succ n => exact ⟨_, fun _ => rfl⟩

theorem adds_compile (schema : Schema) (e : Expr NodeId) : Adds (compile schema e) := by
  obtain ⟨inline, h⟩ := exists_compile_eq_postorder schema
  rw [h]
  exact adds_postorder schema inline e

theorem compile_constant {term : Term} (ht : Term.constant? e = some term) :
    compile schema e = pure term := by
  obtain ⟨_, h⟩ := exists_compile_eq_postorder schema
  rw [h, postorder_constant ht]

theorem compile_reference (schema : Schema) (label : NodeId) (path : Reference) :
    compile schema (.reference label path) = compileReference schema path := by
  obtain ⟨_, h⟩ := exists_compile_eq_postorder schema
  exact h _

theorem compile_operands {f : Term → Term → Term} (hf : Term.combine? e = some f)
    (ho : e.operands = [left, right]) : compile schema e = (do
      let l ← compile schema left
      let r ← compile schema right
      pure (f l r)) := by
  obtain ⟨_, h⟩ := exists_compile_eq_postorder schema
  rw [h, h left, h right, postorder_operands hf ho]

theorem compile_negation (schema : Schema) (label : NodeId) (child : Expr NodeId) :
    compile schema (.negation label child) = (do
      let c ← compile schema child
      pure (.negation c)) := by
  obtain ⟨_, h⟩ := exists_compile_eq_postorder schema
  rw [h, h child]
  rfl

theorem compile_reducer {reducer : Reducer} (hr : callee.reducer? = some reducer) :
    compile schema (.call label callee [child, predicate]) =
      compileReduction schema reducer predicate.label child (some (compile schema predicate)) := by
  obtain ⟨_, h⟩ := exists_compile_eq_postorder schema
  rw [h, h predicate, postorder_reducer hr]
  rfl

theorem compile_spec_null {spec : Spec} (hs : schema.callee? callee = some spec) (label' : NodeId) :
    compile schema (.call label callee [.null label']) =
      Attempt.fail (.notRow spec.name .null) := by
  obtain ⟨_, h⟩ := exists_compile_eq_postorder schema
  obtain ⟨_, _, hspec⟩ := Schema.callee?_eq_some.mp hs
  rw [h, postorder_callee hs]
  simp only [compileSpec, hspec]
  rfl

/-- Where the calls end the depth is no matter. -/
theorem compile_spec {spec : Spec} (hs : schema.callee? callee = some spec)
    (hn : (Expr.call label callee [child]).NestsWithin schema n) :
    compile schema (.call label callee [child]) =
      compileSpec schema (inlined schema) spec.name [(child, compile schema child)] := by
  have hpost : ∀ {e}, e.NestsWithin schema n →
      compile schema e = e.postorder (visit schema (inlined schema)) :=
    fun h => compileWithin_congr h.specs (Nat.le_succ _)
  have hchild := hn.of_subset (Expr.mem_nodes_argument (List.mem_singleton_self child))
  rw [hpost hn, hpost hchild, postorder_callee hs]
  rfl

end equations

inductive Ends (schema : Schema) : Expr NodeId → Prop where
  | constant {e : Expr NodeId} {term : Term} (ht : Term.constant? e = some term) : Ends schema e
  | reference (label : NodeId) (path : Reference) : Ends schema (.reference label path)
  | operands {e left right : Expr NodeId} {f : Term → Term → Term} (hf : Term.combine? e = some f)
    (ho : e.operands = [left, right]) (hl : Ends schema left) (hr : Ends schema right) :
    Ends schema e
  | negation (label : NodeId) {child : Expr NodeId} (h : Ends schema child) :
    Ends schema (.negation label child)
  | reducer (label : NodeId) {callee : Reference} {reducer : Reducer}
    {child predicate : Expr NodeId} {path : Reference}
    (hr : callee.reducer? = some reducer) (hp : child.childPath? = some path)
    (h : Ends schema predicate) : Ends schema (.call label callee [child, predicate])
  | specNull (label label' : NodeId) {callee : Reference} {spec : Spec}
    (hs : schema.callee? callee = some spec) : Ends schema (.call label callee [.null label'])
  | spec (label label' : NodeId) {callee path : Reference} {spec : Spec}
    (hs : schema.callee? callee = some spec)
    (hpath : Typing.referenceType schema path = .ok (.table spec.table))
    (heq : compile schema (.call label callee [.reference label' path]) =
      compileSpec schema (inlined schema) spec.name
        [(.reference label' path, compileReference schema path)])
    (h : Ends schema spec.body) : Ends schema (.call label callee [.reference label' path])

/-- The step from the bodies of the called specs to an expression. -/
theorem ends_of_calls (hn : e.NestsWithin schema n) (he : e.Shaped schema)
    (hcalls : ∀ spec, e.Calls schema spec → Ends schema spec.body) : Ends schema e := by
  induction e using Expr.induction with
  | null | boolean | number | string => exact .constant rfl
  | reference label path => exact .reference label path
  | binary label op left right hl hr | conjunction label left right hl hr
  | disjunction label left right hl hr =>
    refine .operands rfl rfl (hl ?_ ?_ ?_) (hr ?_ ?_ ?_)
    · exact hn.of_subset (by simp +contextual [Expr.nodes])
    · exact he.of_subset (by simp +contextual [Expr.nodes])
    · exact fun spec hs => hcalls spec (hs.of_subset (by simp +contextual [Expr.nodes]))
    · exact hn.of_subset (by simp +contextual [Expr.nodes])
    · exact he.of_subset (by simp +contextual [Expr.nodes])
    · exact fun spec hs => hcalls spec (hs.of_subset (by simp +contextual [Expr.nodes]))
  | negation label child hc =>
    have hsub := @Expr.mem_nodes_operand (.negation label child) child (List.mem_singleton_self _)
    exact .negation label (hc (hn.of_subset hsub) (he.of_subset hsub)
      fun spec hs => hcalls spec (hs.of_subset hsub))
  | call label callee arguments ih =>
    rcases he label callee arguments (Expr.self_mem_nodes _) with
      ⟨reducer, child, predicate, path, hr, rfl, hp⟩ |
      ⟨spec, hs, ⟨label', rfl⟩ | ⟨label', path, rfl, hpath⟩⟩
    · have hsub := @Expr.mem_nodes_argument _ label callee [child, predicate] predicate (by simp)
      exact .reducer label hr hp (ih predicate (by simp) (hn.of_subset hsub) (he.of_subset hsub)
        fun spec hs => hcalls spec (hs.of_subset hsub))
    · exact .specNull label label' hs
    · have heq := compile_spec hs hn
      rw [compile_reference] at heq
      exact .spec label label' hs hpath heq
        (hcalls spec (Expr.calls_of_mem (Expr.self_mem_nodes _) hs))

theorem ends_of_shaped (hspecs : ∀ spec ∈ schema.specs, spec.body.Shaped schema)
    (hn : e.NestsWithin schema n) (he : e.Shaped schema) : Ends schema e := by
  induction n generalizing e with
  | zero => exact ends_of_calls hn he fun spec hs => absurd hs (hn spec)
  | succ n ih =>
    refine ends_of_calls hn he fun spec hs => ?_
    exact ih (hn spec hs) (hspecs spec (Schema.spec?_eq_some hs.spec?).1)

theorem ends_of_run (hspecs : ∀ spec ∈ schema.specs, spec.body.Shaped schema)
    (he : e.Shaped schema) {d d' : Draft} {term : Term}
    (h : (compile schema e).run d = (.ok term, d')) : Ends schema e :=
  ends_of_shaped hspecs (nestsWithin_of_run_ok h) he

end Sql

end RowSpec
