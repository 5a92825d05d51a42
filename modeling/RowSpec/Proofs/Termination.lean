import RowSpec.Proofs.Accumulation

/-! Compilation ends. The compiler counts how deep the calls of specs nest, and gives up behind as
many as there are specs. `Concludes` says what a compilation comes to without a count: a call goes
on in the body of its spec, however large that is, so calls that go round have no conclusion. Where
no spec that is reached comes back to itself, every compilation has one conclusion, into any draft,
and the compiler finds it. -/
namespace RowSpec.Sql

def Reduction.markerTest (r : Reduction) (reducer : Reducer) (id : NodeId) (root : String) : Term :=
  .test ⟨(r.join id root).key, r.marker reducer id⟩
    (if reducer.wantsMarker then .isOne else .isNotOne)

def Draft.addReduction (d : Draft) (r : Reduction) (reducer : Reducer) (id : NodeId)
    (condition : Term) (nested : Draft) : Draft :=
  ((d.addCtes nested.ctes).addCte (r.cte reducer id nested.joins condition)).addJoin
    (r.join id d.root)

/-- What the compilation of an expression into a draft comes to, and the draft behind it. A
derivation follows the compilation call by call: into the operands of a node, the argument of a spec
and the predicate of a reducer, and from the call of a spec into its body. -/
inductive Concludes (schema : Schema) :
    Expr NodeId → Draft → Except CompileError Term → Draft → Prop where
  | constant {e : Expr NodeId} {term : Term} (d : Draft) (ht : Term.constant? e = some term) :
    Concludes schema e d (.ok term) d
  | reference (label : NodeId) (path : Reference) (d : Draft) :
    Concludes schema (.reference label path) d ((compileReference schema path).run d).1
      ((compileReference schema path).run d).2
  | operands {e left right : Expr NodeId} {f : Term → Term → Term} {l : Term}
    {result : Except CompileError Term} {d d₁ d₂ : Draft} (hf : Term.combine? e = some f)
    (ho : e.operands = [left, right]) (hl : Concludes schema left d (.ok l) d₁)
    (hr : Concludes schema right d₁ result d₂) : Concludes schema e d (result.map (f l)) d₂
  | leftFails {e left right : Expr NodeId} {error : CompileError} {d d₁ : Draft}
    (ho : e.operands = [left, right]) (hl : Concludes schema left d (.error error) d₁) :
    Concludes schema e d (.error error) d₁
  | negation (label : NodeId) {child : Expr NodeId} {result : Except CompileError Term}
    {d d₁ : Draft} (hc : Concludes schema child d result d₁) :
    Concludes schema (.negation label child) d (result.map .negation) d₁
  | notSingle (label : NodeId) {callee : Reference} (arguments : List (Expr NodeId)) (d : Draft)
    (hname : callee.single? = none) :
    Concludes schema (.call label callee arguments) d (.error (.segmentCount callee)) d
  | reducerArity (label : NodeId) {callee : Reference} {reducer : Reducer}
    {arguments : List (Expr NodeId)} (d : Draft) (hr : callee.reducer? = some reducer)
    (hone : arguments.length ≠ 1) (htwo : arguments.length ≠ 2) :
    Concludes schema (.call label callee arguments) d
      (.error (.reducerArity reducer arguments.length)) d
  | unresolved (label : NodeId) {callee : Reference} {reducer : Reducer} {child : Expr NodeId}
    {rest : List (Expr NodeId)} {error : CompileError} {d : Draft}
    (hr : callee.reducer? = some reducer) (hrest : rest.length ≤ 1)
    (hresolve : Reduction.resolve schema d.table child = .error error) :
    Concludes schema (.call label callee (child :: rest)) d (.error error) d
  | bare (label : NodeId) {callee : Reference} {reducer : Reducer} {child : Expr NodeId}
    {r : Reduction} {d : Draft} (hr : callee.reducer? = some reducer)
    (hresolve : Reduction.resolve schema d.table child = .ok r) :
    Concludes schema (.call label callee [child]) d (.ok (r.markerTest reducer label d.root))
      (d.addReduction r reducer label (.test ⟨r.child.name, r.child.id⟩ .isPresent)
        (.ofTable r.child.name))
  | predicate (label : NodeId) {callee : Reference} {reducer : Reducer}
    {child predicate : Expr NodeId} {r : Reduction} {condition : Term} {d nested : Draft}
    (hr : callee.reducer? = some reducer)
    (hresolve : Reduction.resolve schema d.table child = .ok r)
    (hp : Concludes schema predicate (.ofTable r.child.name) (.ok condition) nested) :
    Concludes schema (.call label callee [child, predicate]) d
      (.ok (r.markerTest reducer predicate.label d.root))
      (d.addReduction r reducer predicate.label condition nested)
  | predicateFails (label : NodeId) {callee : Reference} {reducer : Reducer}
    {child predicate : Expr NodeId} {r : Reduction} {error : CompileError} {d nested : Draft}
    (hr : callee.reducer? = some reducer)
    (hresolve : Reduction.resolve schema d.table child = .ok r)
    (hp : Concludes schema predicate (.ofTable r.child.name) (.error error) nested) :
    Concludes schema (.call label callee [child, predicate]) d (.error error) d
  | unknownFunction (label : NodeId) {callee : Reference} {name : String}
    (arguments : List (Expr NodeId)) (d : Draft) (hname : callee.single? = some name)
    (hr : callee.reducer? = none) (hs : schema.spec? name = none) :
    Concludes schema (.call label callee arguments) d (.error (.unknownFunction name)) d
  | specArity (label : NodeId) {callee : Reference} {spec : Spec} {arguments : List (Expr NodeId)}
    (d : Draft) (hs : schema.callee? callee = some spec) (hone : arguments.length ≠ 1) :
    Concludes schema (.call label callee arguments) d
      (.error (.specArity spec.name arguments.length)) d
  | argumentFails (label : NodeId) {callee : Reference} {spec : Spec} {a : Expr NodeId}
    {error : CompileError} {d d₁ : Draft} (hs : schema.callee? callee = some spec)
    (ha : Concludes schema a d (.error error) d₁) :
    Concludes schema (.call label callee [a]) d (.error error) d₁
  | notRow (label : NodeId) {callee : Reference} {spec : Spec} {a : Expr NodeId} {found : Term}
    {d d₁ : Draft} (hs : schema.callee? callee = some spec)
    (ha : Concludes schema a d (.ok found) d₁) (hrow : rowName? found.render = none) :
    Concludes schema (.call label callee [a]) d (.error (.notRow spec.name found)) d₁
  | body (label : NodeId) {callee : Reference} {spec : Spec} {a : Expr NodeId} {found term : Term}
    {row : String} {d d₁ nested : Draft} (hs : schema.callee? callee = some spec)
    (ha : Concludes schema a d (.ok found) d₁) (hrow : rowName? found.render = some row)
    (hb : Concludes schema spec.body (.ofRow spec.table row) (.ok term) nested) :
    Concludes schema (.call label callee [a]) d (.ok term) (d₁.absorb nested)
  | bodyFails (label : NodeId) {callee : Reference} {spec : Spec} {a : Expr NodeId} {found : Term}
    {row : String} {error : CompileError} {d d₁ nested : Draft}
    (hs : schema.callee? callee = some spec) (ha : Concludes schema a d (.ok found) d₁)
    (hrow : rowName? found.render = some row)
    (hb : Concludes schema spec.body (.ofRow spec.table row) (.error error) nested) :
    Concludes schema (.call label callee [a]) d (.error error) d₁

def ConcludesUnless (schema : Schema) (Stuck : CompileError → Prop) (e : Expr NodeId) (d : Draft)
    (out : Except CompileError Term × Draft) : Prop :=
  (∃ error, out.1 = .error error ∧ Stuck error) ∨ Concludes schema e d out.1 out.2

variable {schema : Schema} {e : Expr NodeId} {d d' : Draft} {result : Except CompileError Term}

section steps

variable {inline : Inline} {callee : Reference}

theorem run_operands {left right : Expr NodeId} {f : Term → Term → Term} {l : Term}
    {d₁ d₂ : Draft} (hf : Term.combine? e = some f) (ho : e.operands = [left, right])
    (hl : (left.postorder (visit schema inline)).run d = (.ok l, d₁))
    (hr : (right.postorder (visit schema inline)).run d₁ = (result, d₂)) :
    (e.postorder (visit schema inline)).run d = (result.map (f l), d₂) := by
  rw [postorder_operands hf ho, Attempt.run_bind_ok hl]
  cases result with
  | ok r => rw [Attempt.run_bind_ok hr]; rfl
  | error error => rw [Attempt.run_bind_error hr]; rfl

theorem run_leftFails {left right : Expr NodeId} {error : CompileError} {d₁ : Draft}
    (ho : e.operands = [left, right])
    (hl : (left.postorder (visit schema inline)).run d = (.error error, d₁)) :
    (e.postorder (visit schema inline)).run d = (.error error, d₁) := by
  have hf : ∃ f, Term.combine? e = some f := by
    cases e <;> cases ho <;> exact ⟨_, rfl⟩
  obtain ⟨f, hf⟩ := hf
  rw [postorder_operands hf ho, Attempt.run_bind_error hl]

theorem run_negation {child : Expr NodeId} {d₁ : Draft} (label : NodeId)
    (hc : (child.postorder (visit schema inline)).run d = (result, d₁)) :
    ((Expr.negation label child).postorder (visit schema inline)).run d =
      (result.map .negation, d₁) := by
  simp only [Expr.postorder]
  cases result with
  | ok c => rw [Attempt.run_bind_ok hc]; rfl
  | error error => rw [Attempt.run_bind_error hc]; rfl

theorem run_notSingle (label : NodeId) (arguments : List (Expr NodeId)) (d : Draft)
    (hname : callee.single? = none) :
    ((Expr.call label callee arguments).postorder (visit schema inline)).run d =
      (.error (.segmentCount callee), d) := by
  simp only [Expr.postorder, visit, compileCall, hname, Attempt.run_fail]

theorem run_reducerArity {reducer : Reducer} {arguments : List (Expr NodeId)} (label : NodeId)
    (d : Draft) (hr : callee.reducer? = some reducer) (hone : arguments.length ≠ 1)
    (htwo : arguments.length ≠ 2) :
    ((Expr.call label callee arguments).postorder (visit schema inline)).run d =
      (.error (.reducerArity reducer arguments.length), d) := by
  rw [postorder_reducer hr]
  match arguments with
  | [] => rfl
  | [_] => exact absurd rfl hone
  | [_, _] => exact absurd rfl htwo
  | _ :: _ :: _ :: rest =>
    simp only [List.map_cons, compileReducer, Attempt.run_fail, List.length_cons, List.length_map]

theorem run_unresolved {reducer : Reducer} {child : Expr NodeId} {rest : List (Expr NodeId)}
    {error : CompileError} (label : NodeId) (hr : callee.reducer? = some reducer)
    (hrest : rest.length ≤ 1)
    (hresolve : Reduction.resolve schema d.table child = .error error) :
    ((Expr.call label callee (child :: rest)).postorder (visit schema inline)).run d =
      (.error error, d) := by
  rw [postorder_reducer hr]
  match rest with
  | [] | [_] => simp only [List.map_cons, List.map_nil, compileReducer, compileReduction, hresolve]
  | _ :: _ :: _ => simp at hrest

theorem run_bare {reducer : Reducer} {child : Expr NodeId} {r : Reduction} (label : NodeId)
    (hr : callee.reducer? = some reducer)
    (hresolve : Reduction.resolve schema d.table child = .ok r) :
    ((Expr.call label callee [child]).postorder (visit schema inline)).run d =
      (.ok (r.markerTest reducer label d.root),
        d.addReduction r reducer label (.test ⟨r.child.name, r.child.id⟩ .isPresent)
          (.ofTable r.child.name)) := by
  rw [postorder_reducer hr]
  simp only [List.map_cons, List.map_nil, compileReducer, compileReduction, hresolve]
  rfl

theorem run_predicate {reducer : Reducer} {child predicate : Expr NodeId} {r : Reduction}
    {condition : Term} {nested : Draft} (label : NodeId) (hr : callee.reducer? = some reducer)
    (hresolve : Reduction.resolve schema d.table child = .ok r)
    (hp : (predicate.postorder (visit schema inline)).run (.ofTable r.child.name) =
      (.ok condition, nested)) :
    ((Expr.call label callee [child, predicate]).postorder (visit schema inline)).run d =
      (.ok (r.markerTest reducer predicate.label d.root),
        d.addReduction r reducer predicate.label condition nested) := by
  rw [postorder_reducer hr]
  simp only [List.map_cons, List.map_nil, compileReducer, compileReduction, hresolve,
    Reduction.condition, Option.getD_some, hp]
  rfl

theorem run_predicateFails {reducer : Reducer} {child predicate : Expr NodeId} {r : Reduction}
    {error : CompileError} {nested : Draft} (label : NodeId)
    (hr : callee.reducer? = some reducer)
    (hresolve : Reduction.resolve schema d.table child = .ok r)
    (hp : (predicate.postorder (visit schema inline)).run (.ofTable r.child.name) =
      (.error error, nested)) :
    ((Expr.call label callee [child, predicate]).postorder (visit schema inline)).run d =
      (.error error, d) := by
  rw [postorder_reducer hr]
  simp only [List.map_cons, List.map_nil, compileReducer, compileReduction, hresolve,
    Reduction.condition, Option.getD_some, hp]

theorem run_unknownFunction {name : String} (label : NodeId) (arguments : List (Expr NodeId))
    (d : Draft) (hname : callee.single? = some name) (hr : callee.reducer? = none)
    (hs : schema.spec? name = none) :
    ((Expr.call label callee arguments).postorder (visit schema inline)).run d =
      (.error (.unknownFunction name), d) := by
  rw [postorder_spec hname hr]
  simp only [compileSpec, hs, Attempt.run_fail]

section spec

variable {spec : Spec} {a : Expr NodeId} {found : Term} {d₁ : Draft}

theorem run_specArity {arguments : List (Expr NodeId)} (label : NodeId) (d : Draft)
    (hs : schema.callee? callee = some spec) (hone : arguments.length ≠ 1) :
    ((Expr.call label callee arguments).postorder (visit schema inline)).run d =
      (.error (.specArity spec.name arguments.length), d) := by
  rw [postorder_callee hs]
  obtain ⟨_, _, hspec⟩ := Schema.callee?_eq_some.mp hs
  match arguments with
  | [] => simp only [compileSpec, hspec, List.map_nil, Attempt.run_fail, List.length_nil]
  | [_] => exact absurd rfl hone
  | _ :: _ :: _ =>
    simp only [compileSpec, hspec, List.map_cons, Attempt.run_fail, List.length_cons,
      List.length_map]

theorem run_argumentFails {error : CompileError} (label : NodeId)
    (hs : schema.callee? callee = some spec)
    (ha : (a.postorder (visit schema inline)).run d = (.error error, d₁)) :
    ((Expr.call label callee [a]).postorder (visit schema inline)).run d = (.error error, d₁) := by
  obtain ⟨_, _, hspec⟩ := Schema.callee?_eq_some.mp hs
  rw [postorder_callee hs]
  simp only [compileSpec, hspec, List.map_cons, List.map_nil]
  exact Attempt.run_bind_error ha

theorem run_notRow (label : NodeId) (hs : schema.callee? callee = some spec)
    (ha : (a.postorder (visit schema inline)).run d = (.ok found, d₁))
    (hrow : rowName? found.render = none) :
    ((Expr.call label callee [a]).postorder (visit schema inline)).run d =
      (.error (.notRow spec.name found), d₁) := by
  obtain ⟨_, _, hspec⟩ := Schema.callee?_eq_some.mp hs
  rw [postorder_callee hs]
  simp only [compileSpec, hspec, List.map_cons, List.map_nil]
  rw [Attempt.run_bind_ok ha]
  simp only [hrow, Attempt.run_fail]

theorem run_specBody {term : Term} {row : String} {nested : Draft} (label : NodeId)
    (hs : schema.callee? callee = some spec)
    (ha : (a.postorder (visit schema inline)).run d = (.ok found, d₁))
    (hrow : rowName? found.render = some row) (hi : inline spec row = (.ok term, nested)) :
    ((Expr.call label callee [a]).postorder (visit schema inline)).run d =
      (.ok term, d₁.absorb nested) := by
  obtain ⟨_, _, hspec⟩ := Schema.callee?_eq_some.mp hs
  rw [postorder_callee hs]
  simp only [compileSpec, hspec, List.map_cons, List.map_nil]
  rw [Attempt.run_bind_ok ha]
  simp only [hrow, hi]
  rfl

theorem run_specBodyFails {error : CompileError} {row : String} {nested : Draft} (label : NodeId)
    (hs : schema.callee? callee = some spec)
    (ha : (a.postorder (visit schema inline)).run d = (.ok found, d₁))
    (hrow : rowName? found.render = some row) (hi : inline spec row = (.error error, nested)) :
    ((Expr.call label callee [a]).postorder (visit schema inline)).run d = (.error error, d₁) := by
  obtain ⟨_, _, hspec⟩ := Schema.callee?_eq_some.mp hs
  rw [postorder_callee hs]
  simp only [compileSpec, hspec, List.map_cons, List.map_nil]
  rw [Attempt.run_bind_ok ha]
  simp only [hrow, hi, Attempt.run_fail]

end spec

end steps

/-- A body is one call deeper than the expression that calls the spec. -/
theorem bodies_of_run {spec : Spec} {row : String} {out : Except CompileError Term × Draft}
    {k : Nat} (h : ∀ m, k ≤ m →
      (spec.body.postorder (visit schema (bodies schema m))).run (.ofRow spec.table row) = out)
    {m : Nat} (hm : k < m) : bodies schema m spec row = out := by
  obtain ⟨m, rfl⟩ : ∃ m', m = m' + 1 := ⟨m - 1, by omega⟩
  change (compileWithin schema m spec.body).run (.ofRow spec.table row) = out
  rw [compileWithin_eq_postorder]
  exact h m (by omega)

/-- Deep enough, every depth comes to the conclusion. -/
theorem run_of_concludes (h : Concludes schema e d result d') :
    ∃ n, ∀ m, n ≤ m → (compileWithin schema m e).run d = (result, d') := by
  simp only [compileWithin_eq_postorder]
  induction h with
  | constant d ht =>
    refine ⟨0, fun m _ => ?_⟩
    rw [postorder_constant ht]
    rfl
  | reference label path d => exact ⟨0, fun m _ => rfl⟩
  | operands hf ho _ _ ihl ihr =>
    obtain ⟨n, hn⟩ := ihl
    obtain ⟨k, hk⟩ := ihr
    refine ⟨max n k, fun m hm => ?_⟩
    exact run_operands hf ho (hn m (by omega)) (hk m (by omega))
  | leftFails ho _ ih =>
    obtain ⟨n, hn⟩ := ih
    exact ⟨n, fun m hm => run_leftFails ho (hn m hm)⟩
  | negation label _ ih =>
    obtain ⟨n, hn⟩ := ih
    exact ⟨n, fun m hm => run_negation label (hn m hm)⟩
  | notSingle label arguments d hname => exact ⟨0, fun m _ => run_notSingle label arguments d hname⟩
  | reducerArity label d hr hone htwo =>
    exact ⟨0, fun m _ => run_reducerArity label d hr hone htwo⟩
  | unresolved label hr hrest hresolve =>
    exact ⟨0, fun m _ => run_unresolved label hr hrest hresolve⟩
  | bare label hr hresolve => exact ⟨0, fun m _ => run_bare label hr hresolve⟩
  | predicate label hr hresolve _ ih =>
    obtain ⟨n, hn⟩ := ih
    exact ⟨n, fun m hm => run_predicate label hr hresolve (hn m hm)⟩
  | predicateFails label hr hresolve _ ih =>
    obtain ⟨n, hn⟩ := ih
    exact ⟨n, fun m hm => run_predicateFails label hr hresolve (hn m hm)⟩
  | unknownFunction label arguments d hname hr hs =>
    exact ⟨0, fun m _ => run_unknownFunction label arguments d hname hr hs⟩
  | specArity label d hs hone => exact ⟨0, fun m _ => run_specArity label d hs hone⟩
  | argumentFails label hs _ ih =>
    obtain ⟨n, hn⟩ := ih
    exact ⟨n, fun m hm => run_argumentFails label hs (hn m hm)⟩
  | notRow label hs _ hrow ih =>
    obtain ⟨n, hn⟩ := ih
    exact ⟨n, fun m hm => run_notRow label hs (hn m hm) hrow⟩
  | body label hs _ hrow _ iha ihb =>
    obtain ⟨n, hn⟩ := iha
    obtain ⟨k, hk⟩ := ihb
    refine ⟨max n (k + 1), fun m hm => ?_⟩
    exact run_specBody label hs (hn m (by omega)) hrow (bodies_of_run hk (by omega))
  | bodyFails label hs _ hrow _ iha ihb =>
    obtain ⟨n, hn⟩ := iha
    obtain ⟨k, hk⟩ := ihb
    refine ⟨max n (k + 1), fun m hm => ?_⟩
    exact run_specBodyFails label hs (hn m (by omega)) hrow (bodies_of_run hk (by omega))

theorem Concludes.unique {result₁ result₂ : Except CompileError Term} {d₁ d₂ : Draft}
    (h₁ : Concludes schema e d result₁ d₁) (h₂ : Concludes schema e d result₂ d₂) :
    result₁ = result₂ ∧ d₁ = d₂ := by
  obtain ⟨n, hn⟩ := run_of_concludes h₁
  obtain ⟨k, hk⟩ := run_of_concludes h₂
  have hrun := (hn (max n k) (by omega)).symm.trans (hk (max n k) (by omega))
  exact Prod.mk.inj hrun

section converse

variable {Stuck : CompileError → Prop} {inline : Inline} {callee : Reference}

theorem concludesUnless_operands {left right : Expr NodeId} {f : Term → Term → Term}
    (hf : Term.combine? e = some f) (ho : e.operands = [left, right])
    (hl : ∀ d, ConcludesUnless schema Stuck left d
      ((left.postorder (visit schema inline)).run d))
    (hr : ∀ d, ConcludesUnless schema Stuck right d
      ((right.postorder (visit schema inline)).run d)) (d : Draft) :
    ConcludesUnless schema Stuck e d ((e.postorder (visit schema inline)).run d) := by
  have hleft := hl d
  rcases hrun : (left.postorder (visit schema inline)).run d with ⟨_ | l, d₁⟩
  · rw [hrun] at hleft
    rw [run_leftFails ho hrun]
    exact hleft.imp_right (.leftFails ho)
  · rw [hrun] at hleft
    have hleft : Concludes schema left d (.ok l) d₁ := hleft.resolve_left (by simp)
    have hright := hr d₁
    rcases hrun' : (right.postorder (visit schema inline)).run d₁ with ⟨r, d₂⟩
    rw [hrun'] at hright
    rw [run_operands hf ho hrun hrun']
    rcases hright with ⟨error, rfl, hstuck⟩ | hright
    · exact Or.inl ⟨error, rfl, hstuck⟩
    · exact Or.inr (.operands hf ho hleft hright)

theorem concludesUnless_negation {child : Expr NodeId} (label : NodeId)
    (hc : ∀ d, ConcludesUnless schema Stuck child d
      ((child.postorder (visit schema inline)).run d)) (d : Draft) :
    ConcludesUnless schema Stuck (.negation label child) d
      (((Expr.negation label child).postorder (visit schema inline)).run d) := by
  have hchild := hc d
  rcases hrun : (child.postorder (visit schema inline)).run d with ⟨c, d₁⟩
  rw [hrun] at hchild
  rw [run_negation label hrun]
  rcases hchild with ⟨error, rfl, hstuck⟩ | hchild
  · exact Or.inl ⟨error, rfl, hstuck⟩
  · exact Or.inr (.negation label hchild)

theorem concludesUnless_predicate {reducer : Reducer} {child predicate : Expr NodeId}
    {r : Reduction} (label : NodeId) (hr : callee.reducer? = some reducer)
    (hresolve : Reduction.resolve schema d.table child = .ok r)
    (hp : ∀ d, ConcludesUnless schema Stuck predicate d
      ((predicate.postorder (visit schema inline)).run d)) :
    ConcludesUnless schema Stuck (.call label callee [child, predicate]) d
      (((Expr.call label callee [child, predicate]).postorder (visit schema inline)).run d) := by
  have hpredicate := hp (.ofTable r.child.name)
  rcases hrun : (predicate.postorder (visit schema inline)).run (.ofTable r.child.name) with
    ⟨_ | condition, nested⟩
  · rw [hrun] at hpredicate
    rw [run_predicateFails label hr hresolve hrun]
    exact hpredicate.imp_right (.predicateFails label hr hresolve)
  · rw [hrun] at hpredicate
    rw [run_predicate label hr hresolve hrun]
    exact Or.inr (.predicate label hr hresolve (hpredicate.resolve_left (by simp)))

theorem concludesUnless_reducer {reducer : Reducer} {arguments : List (Expr NodeId)}
    (label : NodeId) (hr : callee.reducer? = some reducer)
    (ih : ∀ a ∈ arguments, ∀ d, ConcludesUnless schema Stuck a d
      ((a.postorder (visit schema inline)).run d)) (d : Draft) :
    ConcludesUnless schema Stuck (.call label callee arguments) d
      (((Expr.call label callee arguments).postorder (visit schema inline)).run d) := by
  by_cases hone : arguments.length = 1
  · obtain ⟨child, rfl⟩ := List.length_eq_one_iff.mp hone
    cases hresolve : Reduction.resolve schema d.table child with
    | error error =>
      rw [run_unresolved label hr (by simp) hresolve]
      exact Or.inr (.unresolved label hr (by simp) hresolve)
    | ok r =>
      rw [run_bare label hr hresolve]
      exact Or.inr (.bare label hr hresolve)
  by_cases htwo : arguments.length = 2
  · obtain ⟨child, predicate, rfl⟩ := List.length_eq_two.mp htwo
    cases hresolve : Reduction.resolve schema d.table child with
    | error error =>
      rw [run_unresolved label hr (by simp) hresolve]
      exact Or.inr (.unresolved label hr (by simp) hresolve)
    | ok r => exact concludesUnless_predicate label hr hresolve (ih predicate (by simp))
  · rw [run_reducerArity label d hr hone htwo]
    exact Or.inr (.reducerArity label d hr hone htwo)

theorem concludesUnless_spec {spec : Spec} {a : Expr NodeId} (label : NodeId)
    (hs : schema.callee? callee = some spec)
    (hi : ∀ row, ConcludesUnless schema Stuck spec.body (.ofRow spec.table row) (inline spec row))
    (ha : ∀ d, ConcludesUnless schema Stuck a d ((a.postorder (visit schema inline)).run d))
    (d : Draft) : ConcludesUnless schema Stuck (.call label callee [a]) d
      (((Expr.call label callee [a]).postorder (visit schema inline)).run d) := by
  have hargument := ha d
  rcases hrun : (a.postorder (visit schema inline)).run d with ⟨_ | found, d₁⟩
  · rw [hrun] at hargument
    rw [run_argumentFails label hs hrun]
    exact hargument.imp_right (.argumentFails label hs)
  · rw [hrun] at hargument
    have hargument : Concludes schema a d (.ok found) d₁ := hargument.resolve_left (by simp)
    cases hrow : rowName? found.render with
    | none =>
      rw [run_notRow label hs hrun hrow]
      exact Or.inr (.notRow label hs hargument hrow)
    | some row =>
      have hbody := hi row
      rcases hin : inline spec row with ⟨_ | term, nested⟩
      · rw [hin] at hbody
        rw [run_specBodyFails label hs hrun hrow hin]
        exact hbody.imp_right (.bodyFails label hs hargument hrow)
      · rw [hin] at hbody
        rw [run_specBody label hs hrun hrow hin]
        exact Or.inr (.body label hs hargument hrow (hbody.resolve_left (by simp)))

theorem concludesUnless_call {arguments : List (Expr NodeId)} (label : NodeId)
    (hi : ∀ spec row, schema.callee? callee = some spec →
      ConcludesUnless schema Stuck spec.body (.ofRow spec.table row) (inline spec row))
    (ih : ∀ a ∈ arguments, ∀ d, ConcludesUnless schema Stuck a d
      ((a.postorder (visit schema inline)).run d)) (d : Draft) :
    ConcludesUnless schema Stuck (.call label callee arguments) d
      (((Expr.call label callee arguments).postorder (visit schema inline)).run d) := by
  cases hname : callee.single? with
  | none =>
    rw [run_notSingle label arguments d hname]
    exact Or.inr (.notSingle label arguments d hname)
  | some name =>
    cases hr : callee.reducer? with
    | some reducer => exact concludesUnless_reducer label hr ih d
    | none =>
      cases hspec : schema.spec? name with
      | none =>
        rw [run_unknownFunction label arguments d hname hr hspec]
        exact Or.inr (.unknownFunction label arguments d hname hr hspec)
      | some spec =>
        have hs : schema.callee? callee = some spec := by
          obtain rfl := (Schema.spec?_eq_some hspec).2
          rw [Reference.reducer?_of_single? hname] at hr
          exact Schema.callee?_eq_some.mpr ⟨hname, hr, hspec⟩
        by_cases hone : arguments.length = 1
        · obtain ⟨a, rfl⟩ := List.length_eq_one_iff.mp hone
          exact concludesUnless_spec label hs (fun row => hi spec row hs) (ih a (by simp)) d
        · rw [run_specArity label d hs hone]
          exact Or.inr (.specArity label d hs hone)

/-- A walk comes to a conclusion if those of the bodies that are called do. -/
theorem concludesUnless_postorder (hi : ∀ s row, e.Calls schema s →
      ConcludesUnless schema Stuck s.body (.ofRow s.table row) (inline s row)) (d : Draft) :
    ConcludesUnless schema Stuck e d ((e.postorder (visit schema inline)).run d) := by
  induction e using Expr.induction generalizing d with
  | null | boolean | number | string => exact Or.inr (.constant d rfl)
  | reference label path => exact Or.inr (.reference label path d)
  | binary label op left right hl hr | conjunction label left right hl hr
  | disjunction label left right hl hr =>
    refine concludesUnless_operands rfl rfl (hl ?_) (hr ?_) d
    · exact fun s row hc => hi s row (hc.of_subset (by simp +contextual [Expr.nodes]))
    · exact fun s row hc => hi s row (hc.of_subset (by simp +contextual [Expr.nodes]))
  | negation label child hc =>
    refine concludesUnless_negation label (hc ?_) d
    exact fun s row hs => hi s row (hs.of_subset (by simp +contextual [Expr.nodes]))
  | call label callee arguments ih =>
    refine concludesUnless_call label ?_ ?_ d
    · exact fun spec row hs => hi spec row (Expr.calls_of_mem (Expr.self_mem_nodes _) hs)
    · intro a ha
      exact ih a ha fun s row hs => hi s row (hs.of_subset (Expr.mem_nodes_argument ha))

end converse

/-- Where the calls nest within the depth, what the compiler gives is the conclusion. -/
theorem concludes_of_nestsWithin {n : Nat} (h : e.NestsWithin schema n) (d : Draft) :
    Concludes schema e d ((compileWithin schema n e).run d).1
      ((compileWithin schema n e).run d).2 := by
  suffices hunless : ConcludesUnless schema (fun _ => False) e d
      ((compileWithin schema n e).run d) from hunless.resolve_left (by simp)
  induction n generalizing e d with
  | zero => exact concludesUnless_postorder (fun s _ hs => absurd hs (h s)) d
  | succ n ih =>
    exact concludesUnless_postorder (fun s row hs => ih (h s hs) (.ofRow s.table row)) d

def CompileError.IsEndless (error : CompileError) : Prop := ∃ name, error = .endlessCalls name

/-- Within any depth, what the compiler gives is the conclusion, unless it gives up. -/
theorem concludes_of_compileWithin (schema : Schema) (n : Nat) (e : Expr NodeId) (d : Draft) :
    ConcludesUnless schema CompileError.IsEndless e d ((compileWithin schema n e).run d) := by
  induction n generalizing e d with
  | zero => exact concludesUnless_postorder (fun s _ _ => Or.inl ⟨_, rfl, s.name, rfl⟩) d
  | succ n ih => exact concludesUnless_postorder (fun s row _ => ih s.body (.ofRow s.table row)) d

theorem compileMembers_ends {qualifier : String} {table : Table} {members : List String}
    {error : CompileError}
    (h : ((compileMembers schema qualifier table members).run d).1 = .error error) :
    ¬ error.IsEndless := by
  induction members generalizing qualifier table d with
  | nil => cases h
  | cons member rest ih =>
    unfold compileMembers at h
    split at h
    · split at h
      · cases h
      · cases h
        rintro ⟨_, ⟨⟩⟩
    · split at h
      · cases h
        rintro ⟨_, ⟨⟩⟩
      · split at h
        · cases h
          rintro ⟨_, ⟨⟩⟩
        · exact ih h

theorem compileReference_ends {path : Reference} {error : CompileError}
    (h : ((compileReference schema path).run d).1 = .error error) : ¬ error.IsEndless := by
  unfold compileReference at h
  split at h
  · cases h
    rintro ⟨_, ⟨⟩⟩
  · split at h
    · cases h
      rintro ⟨_, ⟨⟩⟩
    · exact compileMembers_ends h

theorem resolve_ends {table : String} {child : Expr NodeId} {error : CompileError}
    (h : Reduction.resolve schema table child = .error error) : ¬ error.IsEndless := by
  unfold Reduction.resolve at h
  split at h
  · cases h
    rintro ⟨_, ⟨⟩⟩
  · split at h
    · cases h
      rintro ⟨_, ⟨⟩⟩
    · split at h
      · cases h
        rintro ⟨_, ⟨⟩⟩
      · split at h
        · cases h
          rintro ⟨_, ⟨⟩⟩
        · cases h

theorem eq_error_of_map {f : Term → Term} {error : CompileError}
    (h : result.map f = .error error) : result = .error error := by
  cases result with
  | ok term => cases h
  | error _ => cases h; rfl

/-- A conclusion is never that the compiler gives up. -/
theorem Concludes.ends (h : Concludes schema e d result d') {error : CompileError}
    (hresult : result = .error error) : ¬ error.IsEndless := by
  induction h with
  | constant | bare | predicate | body => cases hresult
  | reference => exact compileReference_ends hresult
  | unresolved _ _ _ hresolve =>
    cases hresult
    exact resolve_ends hresolve
  | operands _ _ _ _ _ ih | negation _ _ ih =>
    exact ih (eq_error_of_map hresult)
  | leftFails _ _ ih | predicateFails _ _ _ _ ih | argumentFails _ _ _ ih => exact ih hresult
  | bodyFails _ _ _ _ _ _ ih => exact ih hresult
  | _ =>
    cases hresult
    rintro ⟨_, ⟨⟩⟩

/-- The conclusion is what some depth gives without giving up, and from there on every depth. -/
theorem concludes_iff : Concludes schema e d result d' ↔
    ∃ n, (compileWithin schema n e).run d = (result, d') ∧
      ∀ error, result = .error error → ¬ error.IsEndless := by
  constructor
  · intro h
    obtain ⟨n, hn⟩ := run_of_concludes h
    exact ⟨n, hn n (Nat.le_refl n), fun error => h.ends⟩
  · rintro ⟨n, hrun, hends⟩
    have hunless := concludes_of_compileWithin schema n e d
    rw [hrun] at hunless
    refine hunless.resolve_left ?_
    rintro ⟨error, hresult, hendless⟩
    exact hends error hresult hendless

/-- A spec that asks for itself on its own rows has no conclusion. -/
theorem not_concludes_of_self_call {spec : Spec} {callee : Reference} {label label' : NodeId}
    {table : Table} {row : String} (hs : schema.callee? callee = some spec)
    (hbody : spec.body = .call label callee [.reference label' ⟨[spec.table]⟩])
    (htable : schema.table? spec.table = some table) (hrow : hasQualifier row.toList = false) :
    ¬ Concludes schema spec.body (.ofRow spec.table row) result d' := by
  have hargument : (compileReference schema ⟨[spec.table]⟩).run (.ofRow spec.table row) =
      (.ok (.row row), .ofRow spec.table row) := by
    simp [compileReference, htable, Attempt.run_bind, compileMembers, Draft.ofRow, Draft.root]
  have hfails : ∀ n, ∃ nested,
      bodies schema n spec row = (.error (.endlessCalls spec.name), nested) := by
    intro n
    induction n with
    | zero => exact ⟨_, rfl⟩
    | succ n ih =>
      obtain ⟨nested, hn⟩ := ih
      refine ⟨.ofRow spec.table row, ?_⟩
      change (compileWithin schema n spec.body).run (.ofRow spec.table row) = _
      rw [compileWithin_eq_postorder, hbody]
      exact run_specBodyFails label hs hargument (rowName?_row hrow) hn
  intro h
  obtain ⟨n, hrun, hends⟩ := concludes_iff.mp h
  obtain ⟨nested, hbodies⟩ := hfails (n + 1)
  cases hrun.symm.trans hbodies
  exact hends _ rfl ⟨spec.name, rfl⟩

/-- Where no spec that is reached from an expression comes back to itself, compiling it into any
draft comes to an end. It has one conclusion, a term or an error, and the compiler gives it without
running out of depth. -/
theorem compile_concludes (h : ∀ s, e.Reaches schema s → ¬ s.body.Reaches schema s) (d : Draft) :
    ∃ result d', (compile schema e).run d = (result, d') ∧ Concludes schema e d result d' ∧
      (∀ result₁ d₁, Concludes schema e d result₁ d₁ → result₁ = result ∧ d₁ = d') ∧
      ∀ name, result ≠ .error (.endlessCalls name) := by
  have hconcludes := concludes_of_nestsWithin (Expr.nestsWithin_specs h) d
  refine ⟨_, _, rfl, hconcludes, fun result₁ d₁ h₁ => h₁.unique hconcludes, ?_⟩
  intro name hresult
  exact hconcludes.ends hresult ⟨name, rfl⟩

def withOwners : Draft :=
  ⟨"Account", some "A", [⟨.inner, "User", some "A.Owner", ⟨"A.Owner", "Id"⟩, ⟨"A", "OwnerId"⟩⟩], []⟩

def calmOwner : Expr NodeId := .call ⟨30⟩ ⟨["Calm"]⟩ [.reference ⟨29⟩ ⟨["Account", "Owner"]⟩]

theorem compile_concludes_office :
    (∀ s, calmOwner.Reaches Schema.office s → ¬ s.body.Reaches Schema.office s) ∧
    ∃ term d', Concludes Schema.office calmOwner withOwners (.ok term) d' ∧
      term.render = "NOT([A.Owner.AnnotatedUser4].[AnyAccount4] = 1)" ∧
      d'.joins.map Join.key = ["A.Owner", "A.Owner.AnnotatedUser4"] := by
  have hnests : calmOwner.NestsWithin Schema.office 2 := by decide +kernel
  have hacyclic : ∀ s, calmOwner.Reaches Schema.office s → ¬ s.body.Reaches Schema.office s := by
    intro s hs
    obtain ⟨k, _, hk⟩ := hnests.of_reaches hs
    exact hk.not_reaches
  refine ⟨hacyclic, ?_⟩
  obtain ⟨result, d', hrun, hconcludes, _⟩ := compile_concludes hacyclic withOwners
  have hresult : (result, d').1.toOption.any (fun term =>
      term.render = "NOT([A.Owner.AnnotatedUser4].[AnyAccount4] = 1)") = true ∧
      (result, d').2.joins.map Join.key = ["A.Owner", "A.Owner.AnnotatedUser4"] := by
    rw [← hrun]
    decide +kernel
  obtain ⟨term, rfl, hterm⟩ := ok_of_any hresult.1
  exact ⟨term, d', hconcludes, of_decide_eq_true hterm, hresult.2⟩

end RowSpec.Sql
