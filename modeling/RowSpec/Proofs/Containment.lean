import RowSpec.Proofs.Accumulation

/-! What a call of a reducer does to the draft around it. The predicate is compiled in a draft of
its own, whatever it asks for there. If the call fails, the draft around it is as before. If it
succeeds, the joins of the predicate stay in the body of the common table expression that the call
sets up; what comes out is this expression behind those of the predicate, and one join. -/
namespace RowSpec.Sql

variable {schema : Schema}

/-- What a draft gains by a call of a reducer: the expressions that the predicate has set up, then
the call's own, and its join, each unless it is there. -/
structure Gains (d d' nested : Draft) (own : Cte) (join : Join) : Prop where
  table : d'.table = d.table
  rename? : d'.rename? = d.rename?
  joins : d'.joins = d.joins ++ [join].filter (·.key ∉ d.joins.map Join.key)
  ctes : d'.ctes = d.ctes ++ nested.ctes.filter (·.render ∉ d.ctes.map Cte.render) ++
    [own].filter (·.render ∉ (d.ctes ++ nested.ctes).map Cte.render)

theorem mergeBy_singleton {α : Type} {key : α → String} (xs : List α) (y : α) :
    mergeBy key xs [y] = xs ++ [y].filter (key · ∉ xs.map key) :=
  mergeBy_eq_append (by simp)

theorem gains_addJoin {d nested : Draft} (hnodup : (nested.ctes.map Cte.render).Nodup) (own : Cte)
    (join : Join) :
    Gains d (((d.addCtes nested.ctes).addCte own).addJoin join) nested own join := by
  rw [Draft.addJoin_eq, Draft.addCte_eq, Draft.addCtes_eq]
  refine ⟨rfl, rfl, mergeBy_singleton _ _, ?_⟩
  have hkeys : ∀ text, text ∈ (mergeBy Cte.render d.ctes nested.ctes).map Cte.render ↔
      text ∈ (d.ctes ++ nested.ctes).map Cte.render := by
    intro text
    rw [← any_key_iff, any_mergeBy, Bool.or_eq_true, any_key_iff, any_key_iff, List.map_append,
      List.mem_append]
  change mergeBy Cte.render (mergeBy Cte.render d.ctes nested.ctes) [own] = _
  rw [mergeBy_singleton]
  simp only [hkeys]
  rw [mergeBy_eq_append hnodup]

/-- In the draft of its own no expression is set up twice by the predicate. -/
theorem nodup_condition {r : Reduction} {depth : Nat} {predicate? : Option (Expr NodeId)}
    {condition : Term} {nested : Draft}
    (h : (r.condition (predicate?.map (compileWithin schema depth))).run (.ofTable r.child.name) =
      (.ok condition, nested)) : (nested.ctes.map Cte.render).Nodup := by
  cases predicate? with
  | none =>
    cases h
    exact List.nodup_nil
  | some predicate =>
    have hadds : Adds (compileWithin schema depth predicate) := by
      rw [compileWithin_eq_postorder]
      exact adds_postorder schema _ predicate
    have hrun : (compileWithin schema depth predicate).run (.ofTable r.child.name) =
      (.ok condition, nested) := h
    have hnested := (hadds.nodup (.ofTable r.child.name)).2
    change ((((compileWithin schema depth predicate).run (.ofTable r.child.name)).2.ctes).map
      Cte.render).Nodup at hnested
    rwa [hrun] at hnested

theorem compileWithin_reducer {label : NodeId} {callee : Reference} {reducer : Reducer}
    (hr : callee.reducer? = some reducer) (depth : Nat) (child : Expr NodeId)
    (predicate? : Option (Expr NodeId)) :
    compileWithin schema depth (.call label callee (child :: predicate?.toList)) =
      compileReduction schema reducer
        (Expr.call label callee (child :: predicate?.toList)).callNumber child
        (predicate?.map (compileWithin schema depth)) := by
  rw [compileWithin_eq_postorder, postorder_reducer hr]
  cases predicate? with
  | none => rfl
  | some predicate =>
    rw [Option.map_some, compileWithin_eq_postorder]
    rfl

/-- Another number of arguments is refused before the children are looked for. -/
theorem run_miscounted {label : NodeId} {callee : Reference} {reducer : Reducer}
    (hr : callee.reducer? = some reducer) (depth : Nat) {arguments : List (Expr NodeId)}
    (hcount : ¬ ∃ child predicate?, arguments = child :: Option.toList predicate?) (d : Draft) :
    (compileWithin schema depth (.call label callee arguments)).run d =
      (.error (.reducerArity reducer arguments.length), d) := by
  rw [compileWithin_eq_postorder, postorder_reducer hr]
  match arguments with
  | [child] => exact absurd ⟨child, none, rfl⟩ hcount
  | [child, predicate] => exact absurd ⟨child, some predicate, rfl⟩ hcount
  | [] => rfl
  | _ :: _ :: _ :: _ => simp [compileReducer]

theorem compileReduction_of_predicate_error {reducer : Reducer} {id : NodeId} {child : Expr NodeId}
    {predicate : Build Term} {d nested : Draft} {r : Reduction} {error : CompileError}
    (hresolve : Reduction.resolve schema d.table child = .ok r)
    (hrun : predicate.run (.ofTable r.child.name) = (.error error, nested)) :
    (compileReduction schema reducer id child (some predicate)).run d = (.error error, d) := by
  have hcondition : (r.condition (some predicate)).run (.ofTable r.child.name) =
      (.error error, nested) := hrun
  simp only [compileReduction, hresolve, hcondition]

theorem key_join (r : Reduction) (id : NodeId) (root : String) : (r.join id root).key =
    if root = r.parent.name then r.cteName id else root ++ "." ++ r.cteName id := by
  by_cases hroot : root = r.parent.name
  · simp [Reduction.join, Join.key, hroot]
  · simp [Reduction.join, Join.key, hroot]

/-- A call of a reducer is all or nothing, and what its predicate asks for stays inside. A call that
fails, be it for the predicate and at any depth of it, leaves the draft as it was. One that succeeds
leaves in place what was there; it adds the left join of its own expression, the expressions of the
predicate and its own, each unless it is there. -/
theorem reducer_call_contained (schema : Schema) (depth : Nat) (d : Draft) (label : NodeId)
    {callee : Reference} {reducer : Reducer} (hr : callee.reducer? = some reducer)
    (arguments : List (Expr NodeId)) :
    (∀ error d', (compileWithin schema depth (.call label callee arguments)).run d =
      (.error error, d') → d' = d) ∧
    (∀ child predicate r error nested, arguments = [child, predicate] →
      Reduction.resolve schema d.table child = .ok r →
      (compileWithin schema depth predicate).run (.ofTable r.child.name) = (.error error, nested) →
      (compileWithin schema depth (.call label callee arguments)).run d = (.error error, d)) ∧
    ∀ term d', (compileWithin schema depth (.call label callee arguments)).run d = (.ok term, d') →
      ∃ (child : Expr NodeId) (predicate? : Option (Expr NodeId)) (r : Reduction) (condition : Term)
        (nested : Draft) (own : Cte) (join : Join),
        arguments = child :: predicate?.toList ∧
        Reduction.resolve schema d.table child = .ok r ∧
        (r.condition (predicate?.map (compileWithin schema depth))).run (.ofTable r.child.name) =
          (.ok condition, nested) ∧
        own = r.cte reducer (Expr.call label callee arguments).callNumber nested.joins condition ∧
        join.kind = .left ∧ join.table = own.name ∧
        join.key = (if d.root = r.parent.name then own.name else d.root ++ "." ++ own.name) ∧
        join.left = ⟨join.key, r.parent.id⟩ ∧ join.right = ⟨d.root, r.parent.id⟩ ∧
        term = .test ⟨join.key, own.marker⟩ (if reducer = .any then .isOne else .isNotOne) ∧
        Gains d d' nested own join := by
  by_cases hcount : ∃ child predicate?, arguments = child :: Option.toList predicate?
  · obtain ⟨child, predicate?, rfl⟩ := hcount
    rw [compileWithin_reducer hr]
    refine ⟨?_, ?_, ?_⟩
    · intro error d' h
      exact compileReduction_of_error h
    · intro child' predicate r error nested hargs hresolve hrun
      obtain ⟨rfl, hpredicate⟩ := List.cons.inj hargs
      obtain rfl : predicate? = some predicate := Option.toList_eq_singleton_iff.mp hpredicate
      exact compileReduction_of_predicate_error hresolve hrun
    · intro term d' h
      obtain ⟨r, condition, nested, hresolve, hcondition, rfl, rfl⟩ := compileReduction_eq_ok h
      refine ⟨child, predicate?, r, condition, nested, _, r.join _ d.root, rfl, hresolve,
        hcondition, rfl, rfl, rfl, key_join r _ d.root, rfl, rfl, ?_, ?_⟩
      · cases reducer <;> rfl
      · exact gains_addJoin (nodup_condition hcondition) _ _
  · have hrun := @run_miscounted schema label _ _ hr depth _ hcount d
    refine ⟨?_, ?_, ?_⟩
    · intro error d' h
      rw [hrun] at h
      exact (Prod.mk.inj h).2.symm
    · intro child predicate _ _ _ hargs
      exact absurd ⟨child, some predicate, hargs⟩ hcount
    · intro term d' h
      rw [hrun] at h
      cases h

def contacted (last : Expr NodeId) : Expr NodeId :=
  .call ⟨20⟩ ⟨["Any"]⟩ [.reference ⟨11⟩ ⟨["Contact"]⟩,
    .conjunction ⟨19⟩ (.call ⟨13⟩ ⟨["Busy"]⟩ [.reference ⟨12⟩ ⟨["Contact", "Account", "Owner"]⟩])
      last]

def visitedAccounts : Draft :=
  ⟨"Account", some "Contact.Account", [⟨.inner, "Account", some "Contact.Account",
    ⟨"Contact.Account", "Id"⟩, ⟨"Contact", "AccountId"⟩⟩], []⟩

def openContact : Expr NodeId := .reference ⟨14⟩ ⟨["Contact", "Open"]⟩

/-- The predicate asks for three joins and has the expressions of a spec set up. In the second call
it goes on to ask the spec of a field, which is refused. -/
theorem reducer_call_contained_sales :
    (⟨["Any"]⟩ : Reference).reducer? = some .any ∧
    (∃ term d' nested own join,
      (compile sales (contacted openContact)).run visitedAccounts = (.ok term, d') ∧
      d'.joins.map Join.key = ["Contact.Account", "Contact.Account.AnnotatedAccount19"] ∧
      d'.ctes.map Cte.name = ["AnnotatedAccount3", "AnnotatedUser4", "AnnotatedAccount19"] ∧
      Gains visitedAccounts d' nested own join ∧ join.table = own.name) ∧
    ∃ error, (compile sales (contacted (.call ⟨15⟩ ⟨["Busy"]⟩ [openContact]))).run visitedAccounts =
      (.error error, visitedAccounts) := by
  have hany : (⟨["Any"]⟩ : Reference).reducer? = some .any := by decide +kernel
  refine ⟨hany, ?_, ?_⟩
  · have hrun : (compile sales (contacted openContact)).run visitedAccounts =
        (.ok (.test ⟨"Contact.Account.AnnotatedAccount19", "AnyContact19"⟩ .isOne),
          ((compile sales (contacted openContact)).run visitedAccounts).2) :=
      Prod.ext (by decide +kernel) rfl
    obtain ⟨_, _, _, _, nested, own, join, _, _, _, _, _, htable, _, _, _, _, hgains⟩ :=
      (reducer_call_contained sales sales.specs.length visitedAccounts ⟨20⟩ hany _).2.2 _ _ hrun
    exact ⟨_, _, nested, own, join, hrun, by decide +kernel, by decide +kernel, hgains, htable⟩
  · have hrun : (compile sales (contacted (.call ⟨15⟩ ⟨["Busy"]⟩ [openContact]))).run
          visitedAccounts =
        (.error (.notRow "Busy" (.test ⟨"Contact", "Open"⟩ .isOne)),
          ((compile sales (contacted (.call ⟨15⟩ ⟨["Busy"]⟩ [openContact]))).run
            visitedAccounts).2) :=
      Prod.ext (by decide +kernel) rfl
    have hsame := (reducer_call_contained sales sales.specs.length visitedAccounts ⟨20⟩ hany _).1
      _ _ hrun
    exact ⟨_, hrun.trans (congrArg (Prod.mk _) hsame)⟩

end RowSpec.Sql
