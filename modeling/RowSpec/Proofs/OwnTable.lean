import RowSpec.Proofs.Operations
import RowSpec.Proofs.RowNames

/-! A spec called on its own table is the body of the spec. The call compiles the body for rows
whose name is spelled out, where the body on its own leaves it to the draft. A compilation reads of
a draft the table and the name of its rows alone, and does not tell the two apart. -/
namespace RowSpec.Sql

variable {schema : Schema} {d : Draft} {s : Spec}

namespace Draft

def spelled (d : Draft) : Draft := { d with rename? := some d.root }

theorem addJoins_spelled (d : Draft) (joins : List Join) :
    d.spelled.addJoins joins = (d.addJoins joins).spelled := by
  rw [addJoins_eq, addJoins_eq]
  rfl

theorem addCtes_spelled (d : Draft) (ctes : List Cte) :
    d.spelled.addCtes ctes = (d.addCtes ctes).spelled := by
  rw [addCtes_eq, addCtes_eq]
  rfl

theorem addJoin_spelled (d : Draft) (j : Join) : d.spelled.addJoin j = (d.addJoin j).spelled :=
  addJoins_spelled d [j]

theorem addCte_spelled (d : Draft) (c : Cte) : d.spelled.addCte c = (d.addCte c).spelled :=
  addCtes_spelled d [c]

theorem spelled_absorb (d nested : Draft) :
    d.spelled.absorb nested = (d.absorb nested).spelled := by
  rw [absorb, absorb, addCtes_spelled, addJoins_spelled]

end Draft

/-- A run comes to the same whether the name of the rows is spelled out or not. -/
def ReadsRoot {α : Type} (b : Build α) : Prop :=
  ∀ d, b.run d.spelled = ((b.run d).1, (b.run d).2.spelled)

section ReadsRoot

variable {α β : Type}

theorem readsRoot_bind {x : Build α} {f : α → Build β} (hx : ReadsRoot x)
    (hf : ∀ a, ReadsRoot (f a)) : ReadsRoot (x >>= f) := by
  intro d
  have hd := hx d
  obtain ⟨r, n, hn⟩ : ∃ r n, x.run d = (r, n) := ⟨_, _, rfl⟩
  rw [hn] at hd
  cases r with
  | error e => rw [Attempt.run_bind_error hd, Attempt.run_bind_error hn]
  | ok a => rw [Attempt.run_bind_ok hd, Attempt.run_bind_ok hn, hf a n]

theorem readsRoot_absorb (nested : Draft) (term : Term) :
    ReadsRoot (do Attempt.update (·.absorb nested); pure term : Build Term) := by
  intro d
  exact congrArg (Prod.mk _) (Draft.spelled_absorb d nested)

end ReadsRoot

theorem readsRoot_compileMembers (schema : Schema) (members : List String) (qualifier : String)
    (table : Table) : ReadsRoot (compileMembers schema qualifier table members) := by
  obtain ⟨result, joins, hj⟩ := compileMembers_run schema members qualifier table
  intro d
  simp only [hj, Draft.addJoins_spelled]

theorem readsRoot_compileReference (schema : Schema) (path : Reference) :
    ReadsRoot (compileReference schema path) := by
  unfold compileReference
  split
  · exact fun d => rfl
  · next first members _ =>
    split
    · exact fun d => rfl
    · next table _ =>
      intro d
      exact readsRoot_compileMembers schema members (if first = d.table then d.root else first)
        table d

theorem readsRoot_compileReduction (schema : Schema) (reducer : Reducer) (id : NodeId)
    (child : Expr NodeId) (predicate? : Option (Build Term)) :
    ReadsRoot (compileReduction schema reducer id child predicate?) := by
  intro d
  have htable : d.spelled.table = d.table := rfl
  have hroot : d.spelled.root = d.root := rfl
  simp only [compileReduction, htable, hroot]
  split
  · rfl
  · split
    · rfl
    · simp only [Draft.addCtes_spelled, Draft.addCte_spelled, Draft.addJoin_spelled]

theorem stepwise_readsRoot (schema : Schema) : Stepwise schema ReadsRoot where
  value _ _ := rfl
  failure _ _ := rfl
  sequence := readsRoot_bind
  nested := readsRoot_absorb
  reference := readsRoot_compileReference schema
  reduction := readsRoot_compileReduction schema

/-- A draft is given what the expression asks for its rows under their name. -/
theorem compileWithin_ofRow (schema : Schema) (n : Nat) (e : Expr NodeId) (d : Draft) :
    (compileWithin schema n e).run d =
      (((compileWithin schema n e).run (.ofRow d.table d.root)).1,
        d.absorb ((compileWithin schema n e).run (.ofRow d.table d.root)).2) := by
  rw [compileWithin_eq_postorder]
  have hreads := (stepwise_readsRoot schema).postorder (bodies schema n) e d.cleared
  have hofRow : Draft.ofRow d.table d.root = d.cleared.spelled := rfl
  rw [hofRow, hreads, adds_postorder schema (bodies schema n) e d]
  rfl

theorem compileReference_ownTable (hs : (schema.table? s.table).isSome = true)
    (hd : d.table = s.table) :
    (compileReference schema ⟨[s.table]⟩).run d = (.ok (.row d.root), d.addJoins []) := by
  obtain ⟨t, ht⟩ := Option.isSome_iff_exists.mp hs
  simp [compileReference, ht, Attempt.run_bind, compileMembers, hd, Draft.addJoins]

/-- The call of a spec on its own table, whatever the draft calls the rows. -/
theorem compile_ownTable (hs : schema.callee? ⟨[s.name]⟩ = some s)
    (ht : (schema.table? s.table).isSome = true) (hd : d.table = s.table)
    (hroot : ¬ "].[".toList <:+: d.root.toList) (id id' : NodeId) (term : Term) (d' : Draft) :
    (compile schema (.call id ⟨[s.name]⟩ [.reference id' ⟨[s.table]⟩])).run d = (.ok term, d') ↔
      (compile schema s.body).run d = (.ok term, d') := by
  obtain ⟨k, hk⟩ : ∃ k, schema.specs.length = k + 1 := by
    have hmem := (Schema.spec?_eq_some (Schema.callee?_eq_some.mp hs).2.2).1
    exact Nat.exists_eq_succ_of_ne_zero (List.length_pos_of_mem hmem).ne'
  have hcall := compileWithin_call_run hs (hasQualifier_eq_false_iff.mpr hroot)
    (compileReference_ownTable ht hd) (n := k) id id'
  simp only [compile, hk]
  have hbody := compileWithin_ofRow schema (k + 1) s.body d
  rw [hd] at hbody
  rw [hcall, hbody]
  -- below the call the body has one depth less, which is enough if it succeeds at either
  constructor
  · intro h
    split at h
    · next nested hrun =>
      rw [compileWithin_body hs hk (Or.inr hrun)] at hrun
      rw [hrun]
      exact h
    · cases h
  · intro h
    obtain ⟨result, nested, hrun⟩ : ∃ r nested,
        (compileWithin schema (k + 1) s.body).run (.ofRow s.table d.root) = (r, nested) :=
      ⟨_, _, rfl⟩
    rw [hrun] at h
    cases h
    rw [compileWithin_body hs hk (Or.inl hrun), hrun]
    rfl

theorem statement_eq_ok_iff {spec : Spec} {stmt : Statement} :
    spec.statement schema = .ok stmt ↔ ∃ term d',
      (compile schema spec.body).run (.ofTable spec.table) = (.ok term, d') ∧
        stmt = d'.statement term := by
  constructor
  · intro h
    exact select_eq_ok (Schema.ok_of_mapError h)
  · rintro ⟨term, d', hrun, rfl⟩
    apply Schema.mapError_ok
    simp only [select, hrun]

/-- A spec called on its own table, by whatever name the draft has for the rows, compiles exactly if
its body does, and to the same. So a spec that is no more than such a call has the same
statement. -/
theorem call_on_own_table (hbuilt : schema.Built) (hs : s ∈ schema.specs)
    (hname : Reducer.ofName? s.name = none) (id id' : NodeId) :
    (∀ d : Draft, d.table = s.table → ¬ "].[".toList <:+: d.root.toList → ∀ term d',
      (compile schema (.call id ⟨[s.name]⟩ [.reference id' ⟨[s.table]⟩])).run d = (.ok term, d') ↔
        (compile schema s.body).run d = (.ok term, d')) ∧
    (¬ "].[".toList <:+: s.table.toList → ∀ s' : Spec, s'.table = s.table →
      s'.body = .call id ⟨[s.name]⟩ [.reference id' ⟨[s.table]⟩] → ∀ stmt,
        s'.statement schema = .ok stmt ↔ s.statement schema = .ok stmt) := by
  have hspec : schema.spec? s.name = some s :=
    hbuilt.consistent.spec?_eq_some_iff.mpr ⟨hs, rfl⟩
  have hcallee : schema.callee? ⟨[s.name]⟩ = some s :=
    Schema.callee?_eq_some.mpr ⟨rfl, hname, hspec⟩
  have htable := (hbuilt.spec s hs).1
  refine ⟨fun d hd hroot => compile_ownTable hcallee htable hd hroot id id', ?_⟩
  intro hfree s' hs' hbody' stmt
  rw [statement_eq_ok_iff, statement_eq_ok_iff, hs', hbody']
  have hcall := compile_ownTable (d := .ofTable s.table) hcallee htable rfl hfree id id'
  simp only [hcall]

def renamedUsers : Draft :=
  ⟨"User", some "Account.Owner",
    [⟨.inner, "User", some "Account.Owner", ⟨"Account.Owner", "Id"⟩, ⟨"Account", "OwnerId"⟩⟩], []⟩

def stillBusy : Spec :=
  ⟨"StillBusy", "User", "Busy(User)",
    .call ⟨21⟩ ⟨["Busy"]⟩ [.reference ⟨20⟩ ⟨["User"]⟩]⟩

theorem call_on_own_table_sales : sales.Built ∧ ∃ s ∈ sales.specs, Reducer.ofName? s.name = none ∧
    stillBusy.body = .call ⟨21⟩ ⟨[s.name]⟩ [.reference ⟨20⟩ ⟨[s.table]⟩] ∧
    (∃ term d', (compile sales stillBusy.body).run renamedUsers = (.ok term, d') ∧
      (compile sales s.body).run renamedUsers = (.ok term, d') ∧
      term.render = "[Account.Owner.AnnotatedUser4].[AnyAccount4] = 1" ∧
      d'.joins.map Join.key = ["Account.Owner", "Account.Owner.AnnotatedUser4"]) ∧
    ∃ stmt, stillBusy.statement sales = .ok stmt ∧ s.statement sales = .ok stmt := by
  have hspec : (sales.spec? "Busy").any (fun s => s.table = "User" ∧
      (((compile sales s.body).run renamedUsers).map (fun r => r.toOption.map Term.render)
        fun d => d.joins.map Join.key) =
      (some "[Account.Owner.AnnotatedUser4].[AnyAccount4] = 1",
        ["Account.Owner", "Account.Owner.AnnotatedUser4"])) = true := by
    decide +kernel
  have hstmt : (stillBusy.statement sales).toOption.any (fun _ => true) = true := by
    decide +kernel
  obtain ⟨s, hs, h⟩ := (Option.any_eq_true _ _).mp hspec
  obtain ⟨hmem, hname⟩ := Schema.spec?_eq_some hs
  obtain ⟨htable, hrun⟩ := of_decide_eq_true h
  obtain ⟨stmt, hstmt, _⟩ := ok_of_any hstmt
  have hreducer : Reducer.ofName? s.name = none := by
    rw [hname]
    decide
  have hbody : stillBusy.body = .call ⟨21⟩ ⟨[s.name]⟩ [.reference ⟨20⟩ ⟨[s.table]⟩] := by
    rw [hname, htable]
    rfl
  have hfree : ¬ "].[".toList <:+: s.table.toList := by
    rw [htable]
    decide +kernel
  obtain ⟨hcall, hsame⟩ := call_on_own_table sales_built hmem hreducer ⟨21⟩ ⟨20⟩
  rw [← hbody] at hcall
  refine ⟨sales_built, s, hmem, hreducer, hbody, ?_, stmt, hstmt,
    (hsame hfree stillBusy htable.symm hbody stmt).mp hstmt⟩
  obtain ⟨r, d', hbody'⟩ : ∃ r d', (compile sales s.body).run renamedUsers = (r, d') :=
    ⟨_, _, rfl⟩
  rw [hbody'] at hrun
  cases r with
  | error => cases hrun
  | ok term =>
    obtain ⟨hterm, hjoins⟩ := Prod.mk.inj hrun
    refine ⟨term, d', ?_, hbody', Option.some.inj hterm, hjoins⟩
    exact (hcall renamedUsers htable.symm (by decide +kernel) term d').mpr hbody'

end RowSpec.Sql
