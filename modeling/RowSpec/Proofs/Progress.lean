import RowSpec.Proofs.Registry
import RowSpec.Proofs.RoundTrip

/-! What can still go wrong with an expression that has passed the checks. Over a checked schema
without circular calls it compiles, unless a reducer is asked for children that are unrelated to the
table it is evaluated on, is given the bare name of a function, or a spec is called on `null`. -/
namespace RowSpec

def Expr.operands : Expr NodeId → List (Expr NodeId)
  | .binary _ _ left right | .conjunction _ left right | .disjunction _ left right => [left, right]
  | .negation _ child => [child]
  | _ => []

namespace Sql

/-- A node is compiled over the second table when an expression is compiled over the first: the
body of a spec over the table of the spec, and the predicate of a reducer over that of the
children. -/
inductive Visits (schema : Schema) : String → Expr NodeId → String → Expr NodeId → Prop where
  | here (table : String) (e : Expr NodeId) : Visits schema table e table e
  | operand {table table' : String} {e o n : Expr NodeId} (ho : o ∈ e.operands)
    (rest : Visits schema table o table' n) : Visits schema table e table' n
  | body {table table' : String} {label : NodeId} {callee : Reference}
    {arguments : List (Expr NodeId)} {s : Spec} {n : Expr NodeId}
    (hs : schema.callee? callee = some s) (rest : Visits schema s.table s.body table' n) :
    Visits schema table (.call label callee arguments) table' n
  | predicate {table table' : String} {label : NodeId} {callee : Reference} {reducer : Reducer}
    {child predicate n : Expr NodeId} {path : Reference} (hr : callee.reducer? = some reducer)
    (hp : child.childPath? = some path) (rest : Visits schema path.first predicate table' n) :
    Visits schema table (.call label callee [child, predicate]) table' n

def AsksUnrelated (schema : Schema) (table : String) (n : Expr NodeId) (child : Table) : Prop :=
  ∃ label callee reducer argument arguments path, n = .call label callee (argument :: arguments) ∧
    callee.reducer? = some reducer ∧ argument.childPath? = some path ∧
    schema.table? path.first = some child ∧ Reduction.link? child table path = none

/-- A call of a reducer with the bare name of a function, which is no table, among its arguments. -/
def PassesFunction (schema : Schema) (n : Expr NodeId) (name : String) : Prop :=
  ∃ label callee reducer arguments label' path, n = .call label callee arguments ∧
    callee.reducer? = some reducer ∧ .reference label' path ∈ arguments ∧
    path.single? = some name ∧ schema.isCallable name = true ∧ schema.table? name = none

def PassesNull (schema : Schema) (n : Expr NodeId) (s : Spec) : Prop :=
  ∃ label callee label', n = .call label callee [.null label'] ∧ schema.callee? callee = some s

/-- The errors that the checks let through, at a node over a table. -/
def Gap (schema : Schema) (table : String) (n : Expr NodeId) (error : CompileError) : Prop :=
  (∃ child, AsksUnrelated schema table n child ∧ error = .noRelationship child.name table) ∨
    (∃ name, PassesFunction schema n name ∧ error = .unknownTable name) ∨
    ∃ s, PassesNull schema n s ∧ error = .notRow s.name .null

def Raises (schema : Schema) (table : String) (e : Expr NodeId) (error : CompileError) : Prop :=
  ∃ table' n, Visits schema table e table' n ∧ Gap schema table' n error

variable {schema : Schema} {table : String} {e : Expr NodeId} {error : CompileError}

theorem Gap.raises (h : Gap schema table e error) : Raises schema table e error :=
  ⟨table, e, .here table e, h⟩

theorem Raises.operand {o : Expr NodeId} (h : Raises schema table o error)
    (ho : o ∈ e.operands) : Raises schema table e error := by
  obtain ⟨table', n, hv, hg⟩ := h
  exact ⟨table', n, .operand ho hv, hg⟩

/-- What the induction carries besides types: how paths and reducer calls look, and that the bodies
of called specs fail only as they may. -/
structure Checked (schema : Schema) (inline : Inline) (e : Expr NodeId) : Prop where
  wellFormed : e.WellFormed
  children : ∀ label callee arguments reducer, .call label callee arguments ∈ e.nodes →
    callee.reducer? = some reducer →
    ∃ child path, arguments.head? = some child ∧ child.childPath? = some path
  calls : ∀ s row error nested, e.Calls schema s → hasQualifier row.toList = false →
    inline s row = (.error error, nested) → Raises schema s.table s.body error

theorem Checked.of_subset {inline : Inline} {a : Expr NodeId} (h : Checked schema inline e)
    (hsub : ∀ n ∈ a.nodes, n ∈ e.nodes) : Checked schema inline a where
  wellFormed n hn := h.wellFormed n (hsub n hn)
  children label callee arguments reducer hn :=
    h.children label callee arguments reducer (hsub _ hn)
  calls s row error nested hs := h.calls s row error nested (hs.of_subset hsub)

def FailsAs (schema : Schema) (b : Build Term) (e : Expr NodeId) : Prop :=
  ∀ d d' error, (schema.table? d.table).isSome = true → d.Named → b.run d = (.error error, d') →
    Raises schema d.table e error

theorem notMem_of_wellFormed {path : Reference} (h : path.WellFormed) :
    ∀ s ∈ path.segments, '[' ∉ s.toList :=
  fun s hs => (h.lexical.2 s hs).notMem (by decide)

theorem compileReference_row {path : Reference} (hw : path.WellFormed) {name : String}
    (hty : Typing.referenceType schema path = .ok (.table name)) {d : Draft} (hd : d.Named) :
    ∃ row d', (compileReference schema path).run d = (.ok (.row row), d') ∧
      hasQualifier row.toList = false := by
  obtain ⟨t, u, ht, hfollow, _⟩ := Typing.follows_of_referenceType hty
  obtain ⟨joins, hj⟩ := compileMembers_follows hfollow (d.start path)
  exact ⟨_, _, (compileReference_run hw.lexical.1 ht d).trans (hj d),
    hasQualifier_path hw.lexical.1 (notMem_of_wellFormed hw) hd⟩

theorem compileReference_ok {path : Reference} (hne : path.segments ≠ []) {ty : Ty}
    (hty : Typing.referenceType schema path = .ok ty) (hf : ty.isFunction = false) (d : Draft) :
    ∃ term d', (compileReference schema path).run d = (.ok term, d') := by
  obtain ⟨t, ht, hmember⟩ := Typing.memberType_of_referenceType hty hf
  rw [compileReference_run hne ht]
  exact compileMembers_of_memberType hmember _ d

theorem isCallable_of_functionType? {name : String} {ty : Ty}
    (h : Typing.functionType? schema name = some ty) : schema.isCallable name = true := by
  unfold Typing.functionType? at h
  split at h
  · next hr => simp [Schema.isCallable, hr]
  · obtain ⟨s, hs, _⟩ := Option.map_eq_some_iff.mp h
    simp [Schema.isCallable, hs]

theorem first_of_single? {path : Reference} {name : String} (h : path.single? = some name) :
    path.first = name := by
  rw [Reference.eq_of_single? h]
  rfl

theorem passesFunction {label label' : NodeId} {callee : Reference} {reducer : Reducer}
    {arguments : List (Expr NodeId)} {path : Reference} {ty : Ty}
    (hr : callee.reducer? = some reducer) (ha : .reference label' path ∈ arguments)
    (hty : Typing.referenceType schema path = .ok ty) (hf : ty.isFunction = true) :
    schema.table? path.first = none ∧
      PassesFunction schema (.call label callee arguments) path.first := by
  obtain ⟨ht, name, hname, hfun⟩ := Typing.functionType?_of_referenceType hty hf
  obtain rfl := first_of_single? hname
  exact ⟨ht, label, callee, reducer, arguments, label', path, rfl, hr, ha, hname,
    isCallable_of_functionType? hfun, ht⟩

theorem compileReduction_eq_error {reducer : Reducer} {id : NodeId} {child : Expr NodeId}
    {predicate : Build Term} {d d' : Draft}
    (h : (compileReduction schema reducer id child (some predicate)).run d = (.error error, d')) :
    Reduction.resolve schema d.table child = .error error ∨
      ∃ r nested, Reduction.resolve schema d.table child = .ok r ∧
        predicate.run (.ofTable r.child.name) = (.error error, nested) := by
  simp only [compileReduction] at h
  split at h
  · next hr => cases h; exact Or.inl hr
  · next r hr =>
    split at h
    · next nested hc => cases h; exact Or.inr ⟨r, nested, hr, hc⟩
    · cases h

theorem resolve_eq_ok {child : Expr NodeId} {path : Reference} (hp : child.childPath? = some path)
    {r : Reduction} (h : Reduction.resolve schema table child = .ok r) :
    schema.table? path.first = some r.child := by
  simp only [Reduction.resolve, hp] at h
  split at h
  · cases h
  · split at h
    · cases h
    · next hc => split at h <;> cases h; exact hc

theorem parent_of_resolve {child : Expr NodeId} {r : Reduction}
    (h : Reduction.resolve schema table child = .ok r) : schema.table? table = some r.parent := by
  unfold Reduction.resolve at h
  split at h
  · cases h
  · split at h
    · cases h
    · next ht =>
      split at h
      · cases h
      · split at h <;> cases h
        exact ht

theorem resolve_eq_error {child : Expr NodeId} {path : Reference}
    (hp : child.childPath? = some path) (ht : (schema.table? table).isSome = true)
    (h : Reduction.resolve schema table child = .error error) :
    (schema.table? path.first = none ∧ error = .unknownTable path.first) ∨
      ∃ c, schema.table? path.first = some c ∧ Reduction.link? c table path = none ∧
        error = .noRelationship c.name table := by
  obtain ⟨parent, hparent⟩ := Option.isSome_iff_exists.mp ht
  obtain rfl := Schema.table?_eq_some hparent
  simp only [Reduction.resolve, hp, hparent] at h
  split at h
  · next hc => exact Or.inl ⟨hc, (Except.error.inj h).symm⟩
  · next c hc =>
    split at h
    · next hl => exact Or.inr ⟨c, hc, hl, (Except.error.inj h).symm⟩
    · cases h

/-- A failing reducer has unrelated children, or a function for an argument, or a predicate that
fails over the table of the children. -/
theorem failsAs_reducer {inline : Inline} {label : NodeId} {callee : Reference} {reducer : Reducer}
    {child predicate : Expr NodeId} {a b : Ty} (hr : callee.reducer? = some reducer)
    (hc : Checked schema inline (.call label callee [child, predicate]))
    (hchild : child.typeOf schema = .ok a) (hpredicate : predicate.typeOf schema = .ok b)
    (ih : b.isFunction = false →
      FailsAs schema (predicate.postorder (visit schema inline)) predicate) :
    FailsAs schema
      (compileReduction schema reducer predicate.label child
        (some (predicate.postorder (visit schema inline))))
      (.call label callee [child, predicate]) := by
  intro d d' error ht _ h
  obtain ⟨_, path, hhead, hp⟩ := hc.children _ _ _ _ (Expr.self_mem_nodes _) hr
  cases hhead
  obtain ⟨label', rfl⟩ := eq_reference_of_childPath? hp
  rcases compileReduction_eq_error h with hres | ⟨r, nested, hres, hrun⟩
  · rcases resolve_eq_error hp ht hres with ⟨hnone, rfl⟩ | ⟨c, hc, hlink, rfl⟩
    · -- typed but no table: the bare name of a function
      have hf : a.isFunction = true := by
        rw [← Bool.not_eq_false]
        intro hf
        obtain ⟨t, ht, _⟩ := Typing.memberType_of_referenceType hchild hf
        rw [hnone] at ht
        cases ht
      obtain ⟨_, hpass⟩ := @passesFunction schema label label' callee reducer
        [.reference label' path, predicate] path a hr (by simp) hchild hf
      exact Gap.raises (Or.inr (Or.inl ⟨_, hpass, rfl⟩))
    · have hasks : AsksUnrelated schema d.table
          (.call label callee [.reference label' path, predicate]) c :=
        ⟨label, callee, reducer, _, _, path, rfl, hr, hp, hc, hlink⟩
      exact Gap.raises (Or.inl ⟨c, hasks, rfl⟩)
  · have hregistered := resolve_eq_ok hp hres
    have hname := Schema.table?_eq_some hregistered
    cases hf : b.isFunction with
    | true =>
      obtain ⟨label'', path', rfl, hty⟩ := Expr.eq_reference_of_isFunction hpredicate hf
      obtain ⟨hnone, hpass⟩ := @passesFunction schema label label'' callee reducer
        [.reference label' path, .reference label'' path'] path' b hr (by simp) hty hf
      have hne : path'.segments ≠ [] :=
        (hc.wellFormed (.reference label'' path') (by simp [Expr.nodes, Expr.nodesAll])).lexical.1
      cases (compileReference_unknown hne hnone _).symm.trans hrun
      exact Gap.raises (Or.inr (Or.inl ⟨_, hpass, rfl⟩))
    | false =>
      have hsome : (schema.table? (Draft.ofTable r.child.name).table).isSome = true := by
        rw [← hname] at hregistered
        simp [Draft.ofTable, hregistered]
      have hnamed : (Draft.ofTable r.child.name).Named := by simp [Draft.Named, Draft.ofTable]
      obtain ⟨table', n, hv, hg⟩ := ih hf _ _ error hsome hnamed hrun
      have htable : (Draft.ofTable r.child.name).table = path.first := hname
      rw [htable] at hv
      exact ⟨table', n, .predicate hr hp hv, hg⟩

/-- A failing call of a spec is one on `null`, or the body fails. -/
theorem failsAs_spec {inline : Inline} {label : NodeId} {callee : Reference} {s : Spec}
    {argument : Expr NodeId} (hs : schema.callee? callee = some s)
    (hc : Checked schema inline (.call label callee [argument]))
    (hty : argument.typeOf schema = .ok .any ∨ argument.typeOf schema = .ok (.table s.table)) :
    FailsAs schema (compileSpec schema inline s.name
      [(argument, argument.postorder (visit schema inline))]) (.call label callee [argument]) := by
  intro d d' error _ hd h
  obtain ⟨_, _, hspec⟩ := Schema.callee?_eq_some.mp hs
  simp only [compileSpec, hspec] at h
  rcases hty with hty | hty
  · obtain ⟨label', rfl⟩ := Expr.eq_null_of_typeOf hty
    cases h
    exact Gap.raises (Or.inr (Or.inr ⟨s, ⟨label, callee, label', rfl, hs⟩, rfl⟩))
  · obtain ⟨label', path, rfl, hty⟩ := Expr.eq_reference_of_typeOf hty
    have hw : path.WellFormed :=
      hc.wellFormed (.reference label' path) (by simp [Expr.nodes, Expr.nodesAll])
    obtain ⟨row, d₁, hrun, hrow⟩ := compileReference_row hw hty hd
    have hargument : ((Expr.reference label' path).postorder (visit schema inline)).run d =
        (.ok (.row row), d₁) := hrun
    rw [Attempt.run_bind_ok hargument] at h
    simp only [rowName?_row hrow] at h
    split at h
    · next e nested hi =>
      cases h
      obtain ⟨table', n, hv, hg⟩ :=
        hc.calls s row error nested (Expr.calls_of_mem (Expr.self_mem_nodes _) hs) hrow hi
      exact ⟨table', n, .body hs hv, hg⟩
    · cases h

theorem failsAs_operands {left right : Expr NodeId} {x y : Build Term} {f : Term → Term → Term}
    (ho : e.operands = [left, right]) (hx : Adds x) (hl : FailsAs schema x left)
    (hr : FailsAs schema y right) :
    FailsAs schema (do let l ← x; let r ← y; pure (f l r)) e := by
  intro d d' error ht hd h
  rcases Attempt.run_bind_eq_error h with h | ⟨l, d₁, hrun, h⟩
  · exact (hl d d' error ht hd h).operand (by simp [ho])
  · obtain ⟨htable, hname⟩ := hx.frame hrun
    rcases Attempt.run_bind_eq_error h with h | ⟨r, d₂, _, h⟩
    · rw [← htable] at ht ⊢
      rw [Draft.Named, ← hname] at hd
      exact (hr d₁ d' error ht hd h).operand (by simp [ho])
    · cases h

theorem failsAs_postorder {inline : Inline} {ty : Ty} (hc : Checked schema inline e)
    (hty : e.typeOf schema = .ok ty) (hf : ty.isFunction = false) :
    FailsAs schema (e.postorder (visit schema inline)) e := by
  induction e using Expr.induction generalizing ty with
  | null | boolean | number | string =>
    intro d d' error _ _ h
    cases h
  | reference label path =>
    intro d d' error _ _ h
    have hw : path.WellFormed := hc.wellFormed _ (Expr.self_mem_nodes _)
    obtain ⟨term, d₁, hrun⟩ := compileReference_ok hw.lexical.1 hty hf d
    cases hrun.symm.trans h
  | binary label op left right hl hr =>
    obtain ⟨a, b, ha, hb, hfa, hfb, _⟩ := Expr.typeOf_binary hty
    have hleft := hl (hc.of_subset (by simp +contextual [Expr.nodes])) ha hfa
    have hright := hr (hc.of_subset (by simp +contextual [Expr.nodes])) hb hfb
    exact failsAs_operands rfl (adds_postorder schema inline left) hleft hright
  | conjunction label left right hl hr =>
    obtain ⟨ha, hb, _⟩ := Expr.typeOf_conjunction hty
    have hleft := hl (hc.of_subset (by simp +contextual [Expr.nodes])) ha rfl
    have hright := hr (hc.of_subset (by simp +contextual [Expr.nodes])) hb rfl
    exact failsAs_operands rfl (adds_postorder schema inline left) hleft hright
  | disjunction label left right hl hr =>
    obtain ⟨ha, hb, _⟩ := Expr.typeOf_disjunction hty
    have hleft := hl (hc.of_subset (by simp +contextual [Expr.nodes])) ha rfl
    have hright := hr (hc.of_subset (by simp +contextual [Expr.nodes])) hb rfl
    exact failsAs_operands rfl (adds_postorder schema inline left) hleft hright
  | negation label child ih =>
    obtain ⟨ha, _⟩ := Expr.typeOf_negation hty
    have hchild := ih (hc.of_subset (by simp +contextual [Expr.nodes])) ha rfl
    intro d d' error ht hd h
    rcases Attempt.run_bind_eq_error h with h | ⟨_, _, _, h⟩
    · exact (hchild d d' error ht hd h).operand (by simp [Expr.operands])
    · cases h
  | call label callee arguments ih =>
    obtain ⟨_, ⟨reducer, child, predicate, a, b, hr, rfl, ha, hb⟩ | ⟨s, argument, hs, rfl, harg⟩⟩ :=
      Expr.typeOf_call hty
    · obtain ⟨name, hname, hred⟩ := Option.bind_eq_some_iff.mp hr
      have hpredicate := failsAs_reducer hr hc ha hb fun hf =>
        ih predicate (by simp) (hc.of_subset (Expr.mem_nodes_argument (by simp))) hb hf
      simpa only [Expr.postorder, Expr.postorderAll, visit, compileCall, hname, hred,
        compileReducer] using hpredicate
    · obtain ⟨hname, hred, _⟩ := Schema.callee?_eq_some.mp hs
      simpa only [Expr.postorder, Expr.postorderAll, visit, compileCall, hname, hred]
        using failsAs_spec hs hc harg

structure SpecChecked (schema : Schema) (s : Spec) : Prop where
  wellFormed : s.body.WellFormed
  typed : s.body.typeOf schema = .ok .boolean
  inScope : s.body.checkScope schema s.table = .ok ()
  table : (schema.table? s.table).isSome = true

theorem specChecked_of_built (hb : schema.Built) (hc : schema.check = .ok ()) :
    ∀ s ∈ schema.specs, SpecChecked schema s := by
  intro s hs
  obtain ⟨htable, _, _, hp⟩ := hb.spec s hs
  obtain ⟨hty, hscope⟩ := Schema.spec_of_check hc s hs
  exact ⟨wellFormed_of_parseSource hp, hty, hscope, htable⟩

theorem failsAs_compileWithin (hspecs : ∀ s ∈ schema.specs, SpecChecked schema s) {n : Nat}
    {ty : Ty} {root : String} (hn : e.NestsWithin schema n) (hw : e.WellFormed)
    (hty : e.typeOf schema = .ok ty) (hf : ty.isFunction = false)
    (hscope : e.checkScope schema root = .ok ()) :
    FailsAs schema (compileWithin schema n e) e := by
  have hchildren : ∀ label callee arguments reducer, .call label callee arguments ∈ e.nodes →
      callee.reducer? = some reducer →
      ∃ child path, arguments.head? = some child ∧ child.childPath? = some path :=
    fun label callee arguments reducer hmem hr => Expr.childPath?_of_checkScope hscope hmem hr
  induction n generalizing e ty root with
  | zero => exact failsAs_postorder ⟨hw, hchildren, fun s _ _ _ hs => absurd hs (hn s)⟩ hty hf
  | succ n ih =>
    refine failsAs_postorder ⟨hw, hchildren, ?_⟩ hty hf
    intro s row error nested hs hrow hi
    obtain ⟨hbody, htyped, hscoped, htable⟩ := hspecs s (Schema.spec?_eq_some hs.spec?).1
    refine ih (hn s hs) hbody htyped rfl hscoped ?_ (.ofRow s.table row) nested error htable ?_ hi
    · exact fun label callee arguments reducer hmem hr =>
        Expr.childPath?_of_checkScope hscoped hmem hr
    · intro name hname
      cases hname
      exact hrow

theorem reason_notRow_null (name : String) : (CompileError.notRow name .null).reason =
    "spec " ++ name ++ " argument must be a table reference, found NULL" := by
  change "spec " ++ name ++ " argument must be a table reference, found " ++ "NULL" = _
  rw [String.append_assoc]
  rfl

/-- A checked predicate over a table of a checked schema without circular calls compiles, or fails
in one of three ways, each of them at a call that is compiled on the way. -/
theorem compile_progress (hb : schema.Built) (hcheck : schema.check = .ok ())
    (hacyclic : schema.Acyclic) (ht : (schema.table? table).isSome = true) {c c' : Counter}
    {source : String} (hp : parseSource c source = (.ok e, c'))
    (hty : e.typeOf schema = .ok .boolean) (hscope : e.checkScope schema table = .ok ()) :
    (∃ term d, (compile schema e).run (.ofTable table) = (.ok term, d)) ∨
      ∃ error d table' n, (compile schema e).run (.ofTable table) = (.error error, d) ∧
        Visits schema table e table' n ∧
        ((∃ child, AsksUnrelated schema table' n child ∧
            error = .noRelationship child.name table' ∧
            error.reason = "no relationship from " ++ child.name ++ " to " ++ table') ∨
          (∃ name, PassesFunction schema n name ∧ error = .unknownTable name ∧
            error.reason = "table not found: " ++ name) ∨
          ∃ s, PassesNull schema n s ∧ error = .notRow s.name .null ∧
            error.reason =
              "spec " ++ s.name ++ " argument must be a table reference, found NULL") := by
  have hnests : e.NestsWithin schema schema.specs.length :=
    Expr.nestsWithin_specs fun s hs => hacyclic s (Schema.spec?_eq_some hs.spec?).1
  have hfails := failsAs_compileWithin (specChecked_of_built hb hcheck) hnests
    (wellFormed_of_parseSource hp) hty rfl hscope
  obtain ⟨r, d, hrun⟩ : ∃ r d, (compile schema e).run (.ofTable table) = (r, d) := ⟨_, _, rfl⟩
  cases r with
  | ok term => exact Or.inl ⟨term, d, hrun⟩
  | error error =>
    obtain ⟨table', n, hv, hgap⟩ :=
      hfails (.ofTable table) d error ht (by simp [Draft.Named, Draft.ofTable]) hrun
    refine Or.inr ⟨error, d, table', n, hrun, hv, ?_⟩
    rcases hgap with ⟨child, h, rfl⟩ | ⟨name, h, rfl⟩ | ⟨s, h, rfl⟩
    · exact Or.inl ⟨child, h, rfl, rfl⟩
    · exact Or.inr (Or.inl ⟨name, h, rfl, rfl⟩)
    · exact Or.inr (Or.inr ⟨s, h, rfl, reason_notRow_null s.name⟩)

def owners : Schema :=
  ((Schema.withTables [⟨"User", "Id", [⟨"Id", .number⟩], []⟩,
      ⟨"Account", "Id", [⟨"Id", .number⟩, ⟨"Active", .boolean⟩, ⟨"OwnerId", .number⟩],
        [⟨"Owner", "User", "OwnerId"⟩]⟩]).addSpec
    "Odd" "User" "none(User, true)").2

/-- Each of the three ways to fail is taken. -/
theorem compile_progress_owners : owners.Built ∧ owners.check = .ok () ∧ owners.Acyclic ∧
    ∀ p ∈ [("Account.Active and Odd(Account.Owner)", CompileError.noRelationship "User" "User"),
        ("not any(any, Account.Active)", .unknownTable "any"),
        ("Account.Active or Odd(null)", .notRow "Odd" .null)],
      ∃ e c' d table' n, parseSource owners.counter p.1 = (.ok e, c') ∧
        e.typeOf owners = .ok .boolean ∧ e.checkScope owners "Account" = .ok () ∧
        (compile owners e).run (.ofTable "Account") = (.error p.2, d) ∧
        Visits owners "Account" e table' n ∧ Gap owners table' n p.2 := by
  have hbuilt : owners.Built :=
    .addSpec (Schema.built_withTables _) "Odd" "User" "none(User, true)"
  have hcheck : owners.check = .ok () := by decide +kernel
  have hacyclic : owners.Acyclic := by decide +kernel
  refine ⟨hbuilt, hcheck, hacyclic, fun p hp => ?_⟩
  have hruns : ∀ p ∈
      [("Account.Active and Odd(Account.Owner)", CompileError.noRelationship "User" "User"),
        ("not any(any, Account.Active)", .unknownTable "any"),
        ("Account.Active or Odd(null)", .notRow "Odd" .null)],
      (parseSource owners.counter p.1).1.toOption.any (fun e =>
        e.typeOf owners = .ok .boolean ∧ e.checkScope owners "Account" = .ok () ∧
          ((compile owners e).run (.ofTable "Account")).1 = .error p.2) = true := by
    decide +kernel
  obtain ⟨e, c', hparse, hchecks⟩ := parseSource_of_any (hruns p hp)
  obtain ⟨hty, hscope, hrun⟩ := of_decide_eq_true hchecks
  rcases compile_progress hbuilt hcheck hacyclic (by decide +kernel) hparse hty hscope with
    ⟨term, d, hok⟩ | ⟨error, d, table', n, herror, hv, hgap⟩
  · rw [hok] at hrun
    cases hrun
  · rw [herror] at hrun
    obtain rfl := Except.error.inj hrun
    refine ⟨e, c', d, table', n, hparse, hty, hscope, herror, hv, ?_⟩
    rcases hgap with ⟨child, h, he, _⟩ | ⟨name, h, he, _⟩ | ⟨s, h, he, _⟩
    · exact Or.inl ⟨child, h, he⟩
    · exact Or.inr (Or.inl ⟨name, h, he⟩)
    · exact Or.inr (Or.inr ⟨s, h, he⟩)

end Sql

end RowSpec
