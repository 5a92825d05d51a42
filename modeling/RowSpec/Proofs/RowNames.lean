import RowSpec.Proofs.Inlining
import RowSpec.Proofs.Resolution
import RowSpec.Proofs.Termination

/-! Whether the argument of a spec stands for a row is read off its text. The text is a name in
brackets exactly if the argument is a reference whose path ends at a table: columns have the joint
of two names in them, tests and constants end or begin with another character, and the body of a
spec, being a predicate, never comes to a row. -/
namespace RowSpec.Sql

variable {schema : Schema}

theorem hasQualifier_iff {cs : List Char} :
    hasQualifier cs = true ↔ [']', '.', '['] <:+: cs := by
  fun_induction hasQualifier cs with
  | case1 => simp
  | case2 tail => exact iff_of_true rfl ⟨[], tail, rfl⟩
  | case3 c cs hne ih =>
    rw [ih, List.infix_cons_iff]
    constructor
    · exact Or.inr
    · rintro (⟨tail, htail⟩ | h)
      · obtain ⟨hc, hcs⟩ := List.cons.inj htail
        exact absurd hcs.symm (hne tail hc.symm)
      · exact h

theorem hasQualifier_eq_false_iff {cs : List Char} :
    hasQualifier cs = false ↔ ¬ [']', '.', '['] <:+: cs := by
  rw [← hasQualifier_iff, Bool.not_eq_true]

/-- The text is one name in brackets. -/
theorem rowName?_eq_some_iff {text name : String} :
    rowName? text = some name ↔ text = bracket name ∧ ¬ [']', '.', '['] <:+: name.toList := by
  constructor
  · intro h
    unfold rowName? at h
    split at h
    · next cs hcs =>
      split at h
      · next inner hinner =>
        split at h
        · cases h
        · next hq =>
          cases h
          refine ⟨?_, ?_⟩
          · rw [← String.toList_inj, hcs, ← List.reverse_reverse cs, hinner]
            simp [bracket]
          · rw [String.toList_ofList]
            exact hasQualifier_eq_false_iff.mp (Bool.eq_false_iff.mpr hq)
      · cases h
    · cases h
  · rintro ⟨rfl, hname⟩
    exact rowName?_row (hasQualifier_eq_false_iff.mpr hname)

/-- A column has the joint of its two names in it. -/
theorem rowName?_column (c : Column) : rowName? c.render = none := by
  by_contra hsome
  obtain ⟨name, hname⟩ := Option.ne_none_iff_exists'.mp hsome
  obtain ⟨htext, hjoint⟩ := rowName?_eq_some_iff.mp hname
  apply hjoint
  refine ⟨c.qualifier.toList, c.name.toList, ?_⟩
  have hlist := congrArg String.toList htext
  simp only [Column.render, bracket, String.toList_append] at hlist
  have hinner : "[".toList ++ (c.qualifier.toList ++ [']', '.', '['] ++ c.name.toList) ++
      "]".toList = "[".toList ++ name.toList ++ "]".toList := by
    rw [← hlist]
    simp
  exact List.append_cancel_left (List.append_cancel_right hinner)

/-- A test ends with another character. -/
theorem rowName?_test (c : Column) (t : Test) : rowName? (c.render ++ t.render) = none := by
  by_contra hsome
  obtain ⟨name, hname⟩ := Option.ne_none_iff_exists'.mp hsome
  have hlast := congrArg (fun text => text.toList.reverse.head?) (rowName?_eq_some_iff.mp hname).1
  cases t <;> simp [Test.render, bracket] at hlast

/-- Of all terms only a row reads as a name in brackets. -/
theorem eq_row_of_rowName? {term : Term} {name : String} (h : rowName? term.render = some name) :
    term = .row name := by
  cases term with
  | row row => rw [rowName?_eq_some h]
  | column c => exact absurd ((rowName?_column c).symm.trans h) (by simp)
  | test c t => exact absurd ((rowName?_test c t).symm.trans h) (by simp)
  | _ =>
    rw [Term.rowName?_render rfl] at h
    cases h

def InlinesNoRow (schema : Schema) (inline : Inline) : Prop :=
  ∀ spec ∈ schema.specs, ∀ row name nested, inline spec row ≠ (.ok (.row name), nested)

/-- What comes to a row is a reference. -/
theorem eq_reference_of_row {inline : Inline} (hinline : InlinesNoRow schema inline)
    {e : Expr NodeId} {d d' : Draft} {name : String}
    (h : (e.postorder (visit schema inline)).run d = (.ok (.row name), d')) :
    ∃ label path, e = .reference label path ∧
      (compileReference schema path).run d = (.ok (.row name), d') := by
  cases e with
  | null | boolean | number | string => cases h
  | reference label path => exact ⟨label, path, rfl, h⟩
  | binary | conjunction | disjunction =>
    obtain ⟨_, _, _, h⟩ := Attempt.run_bind_eq_ok h
    obtain ⟨_, _, _, h⟩ := Attempt.run_bind_eq_ok h
    cases h
  | negation =>
    obtain ⟨_, _, _, h⟩ := Attempt.run_bind_eq_ok h
    cases h
  | call label callee arguments =>
    have hcall : (compileCall schema inline label callee
        (Expr.postorderAll (visit schema inline) arguments)).run d = (.ok (.row name), d') := h
    unfold compileCall at hcall
    split at hcall
    · cases hcall
    · split at hcall
      · unfold compileReducer at hcall
        split at hcall
        · obtain ⟨_, _, _, _, _, hterm, _⟩ := compileReduction_eq_ok hcall
          cases hterm
        · obtain ⟨_, _, _, _, _, hterm, _⟩ := compileReduction_eq_ok hcall
          cases hterm
        · cases hcall
      · obtain ⟨spec, _, _, _, _, row, nested, hspec, _, _, _, hbody, _⟩ := compileSpec_eq_ok hcall
        exact absurd hbody (hinline spec (Schema.spec?_eq_some hspec).1 row name nested)

theorem inlinesNoRow_bodies
    (hspecs : ∀ spec ∈ schema.specs, spec.body.typeOf schema = .ok .boolean) (depth : Nat) :
    InlinesNoRow schema (bodies schema depth) := by
  induction depth with
  | zero =>
    intro spec _ row name nested h
    cases h
  | succ depth ih =>
    intro spec hs row name nested h
    have hrun : (spec.body.postorder (visit schema (bodies schema depth))).run
        (.ofRow spec.table row) = (.ok (.row name), nested) := by
      rw [← compileWithin_eq_postorder]
      exact h
    obtain ⟨label, path, hbody, hreference⟩ := eq_reference_of_row ih hrun
    -- a path that ends at a table has the type of its rows, but a body is a predicate
    obtain ⟨⟨u, hends⟩, _⟩ := compileReference_eq_row_iff.mp ⟨nested, hreference⟩
    have hboolean := hspecs spec hs
    rw [hbody] at hboolean
    cases hends.referenceType.symm.trans hboolean

/-- The argument of a spec is taken for a row exactly if it is a reference whose path ends at a
table, and then goes by the name of that row. With any other argument the call is refused. -/
theorem argument_taken_for_row (hcheck : schema.check = .ok ()) {c c' : Counter} {source : String}
    {a : Expr NodeId} (hp : parseSource c source = (.ok a, c')) {d d' : Draft} (hd : d.Named)
    {term : Term} (hrun : (compile schema a).run d = (.ok term, d')) :
    (∀ row, (rowName? term.render = some row ↔
        term.render = "[" ++ row ++ "]" ∧ ¬ "].[".toList <:+: row.toList) ∧
      (rowName? term.render = some row ↔ ∃ label path u, a = .reference label path ∧
        path.EndsAt schema u ∧ row = qualify (d.start path) path.segments.tail)) ∧
    ((¬ ∃ label path u, a = .reference label path ∧ path.EndsAt schema u) →
      ∀ id callee spec, schema.callee? callee = some spec →
        (compile schema (.call id callee [a])).run d = (.error (.notRow spec.name term), d')) := by
  have hrow : ∀ row, rowName? term.render = some row ↔ ∃ label path u, a = .reference label path ∧
      path.EndsAt schema u ∧ row = qualify (d.start path) path.segments.tail := by
    intro row
    constructor
    · intro h
      obtain rfl := eq_row_of_rowName? h
      have hspecs := inlinesNoRow_bodies
        (fun spec hs => (Schema.spec_of_check hcheck spec hs).1) schema.specs.length
      rw [compile, compileWithin_eq_postorder] at hrun
      obtain ⟨label, path, ha, hreference⟩ := eq_reference_of_row hspecs hrun
      obtain ⟨⟨u, hends⟩, hrow⟩ := compileReference_eq_row_iff.mp ⟨d', hreference⟩
      exact ⟨label, path, u, ha, hends, hrow⟩
    · rintro ⟨label, path, u, rfl, hends, rfl⟩
      obtain ⟨_, hreference⟩ := compileReference_eq_row_iff.mpr ⟨⟨u, hends⟩, rfl⟩
      rw [compile_reference] at hrun
      cases hreference.symm.trans hrun
      have hpath : path.WellFormed := wellFormed_of_parseSource hp _ (Expr.self_mem_nodes _)
      exact rowName?_row (hasQualifier_path hends.1 (notMem_of_wellFormed hpath) hd)
  refine ⟨fun row => ⟨rowName?_eq_some_iff, hrow row⟩, ?_⟩
  intro hnone id callee spec hspec
  rw [compile, compileWithin_eq_postorder] at hrun ⊢
  apply run_notRow id hspec hrun
  rw [Option.eq_none_iff_forall_ne_some]
  intro row h
  obtain ⟨label, path, u, ha, hends, _⟩ := (hrow row).mp h
  exact hnone ⟨label, path, u, ha, hends⟩

/-- A path to the owner goes by the name of the owner, and the call of a spec, which is a condition,
is no argument for another call. -/
theorem argument_taken_for_row_sales : sales.check = .ok () ∧ renamed.Named ∧
    (∃ a c' term d', parseSource sales.counter "Account.Owner" = (.ok a, c') ∧
      (compile sales a).run renamed = (.ok term, d') ∧ rowName? term.render = some "A.Owner" ∧
      ∃ label path u, a = .reference label path ∧ path.EndsAt sales u ∧
        "A.Owner" = qualify (renamed.start path) path.segments.tail) ∧
    ∃ a c' term d' spec, parseSource sales.counter "Busy(Account.Owner)" = (.ok a, c') ∧
      (compile sales a).run renamed = (.ok term, d') ∧
      term.render = "[A.Owner.AnnotatedUser4].[AnyAccount4] = 1" ∧
      sales.callee? ⟨["Busy"]⟩ = some spec ∧
      (compile sales (.call ⟨20⟩ ⟨["Busy"]⟩ [a])).run renamed =
        (.error (.notRow spec.name term), d') := by
  have hnamed : renamed.Named := by
    intro name hname
    cases hname
    rfl
  have hruns : (parseSource sales.counter "Account.Owner").1.toOption.any (fun a =>
        ((compile sales a).run renamed).1.toOption.any
          fun term => rowName? term.render = some "A.Owner") = true ∧
      (parseSource sales.counter "Busy(Account.Owner)").1.toOption.any (fun a =>
        a.callees ≠ [] ∧ ((compile sales a).run renamed).1.toOption.any (fun term =>
          term.render = "[A.Owner.AnnotatedUser4].[AnyAccount4] = 1")) = true := by
    decide +kernel
  refine ⟨sales_check, hnamed, ?_, ?_⟩
  · obtain ⟨a, c', hp, hrun⟩ := parseSource_of_any hruns.1
    obtain ⟨term, hterm, hname⟩ := ok_of_any hrun
    have hname := of_decide_eq_true hname
    have hrun : (compile sales a).run renamed = (.ok term, _) := Prod.ext hterm rfl
    obtain ⟨hrow, _⟩ := argument_taken_for_row sales_check hp hnamed hrun
    exact ⟨a, c', term, _, hp, hrun, hname, (hrow _).2.mp hname⟩
  · obtain ⟨a, c', hp, hrun⟩ := parseSource_of_any hruns.2
    obtain ⟨hcallees, hok⟩ := of_decide_eq_true hrun
    obtain ⟨term, hterm, htext⟩ := ok_of_any hok
    obtain ⟨spec, hspec⟩ := Option.isSome_iff_exists.mp
      (show (sales.callee? ⟨["Busy"]⟩).isSome = true by decide +kernel)
    have hrun : (compile sales a).run renamed = (.ok term, _) := Prod.ext hterm rfl
    obtain ⟨_, hrefused⟩ := argument_taken_for_row sales_check hp hnamed hrun
    refine ⟨a, c', term, _, spec, hp, hrun, of_decide_eq_true htext, hspec,
      hrefused ?_ ⟨20⟩ _ spec hspec⟩
    rintro ⟨label, path, u, rfl, _⟩
    exact hcallees rfl

end RowSpec.Sql
