import RowSpec.Proofs.Unfolding

/-! The joins that an expression asks for, in order and with all repetitions, and the term that it
comes to. The joins of a draft are what has been asked for, each name once. A name is introduced
before it is used: by the rows that the compilation starts from, or by a join asked for earlier. -/
namespace RowSpec.Sql

inductive Walks (schema : Schema) :
    String → Table → List String → Option Term → List Join → Prop where
  | row (q : String) (t : Table) : Walks schema q t [] (some (.row q)) []
  | field {q member : String} {t : Table} {field : Field} (hf : t.field? member = some field) :
    Walks schema q t [member] (some (fieldTerm q field)) []
  | stop (q : String) (t : Table) (members : List String) : Walks schema q t members none []
  | hop {q member : String} {t u : Table} {p : Parent} {rest : List String} {outcome : Option Term}
    {js : List Join} (hf : t.field? member = none) (hp : t.parent? member = some p)
    (ht : schema.table? p.table = some u)
    (h : Walks schema (q ++ "." ++ member) u rest outcome js) :
    Walks schema q t (member :: rest) outcome (parentJoin q p u :: js)

/-- The name that a path starts from where the rows of `table` go by the name `root`. -/
def startOf (table root : String) (path : Reference) : String :=
  if path.first = table then root else path.first

/-- Compiled for the rows of a table that go by the second name, an expression comes to a term,
if it does not fail, and has asked for joins. The predicate of a reducer asks elsewhere. -/
inductive Traces (schema : Schema) :
    String → String → Expr NodeId → Option Term → List Join → Prop where
  | constant {table root : String} {e : Expr NodeId} {term : Term}
    (ht : Term.constant? e = some term) : Traces schema table root e (some term) []
  | fails (table root : String) (e : Expr NodeId) : Traces schema table root e none []
  | reference {table root : String} {path : Reference} {t : Table} {outcome : Option Term}
    {js : List Join} (label : NodeId) (ht : schema.table? path.first = some t)
    (hw : Walks schema (startOf table root path) t path.segments.tail outcome js) :
    Traces schema table root (.reference label path) outcome js
  | operands {table root : String} {e left right : Expr NodeId} {f : Term → Term → Term} {l : Term}
    {outcome : Option Term} {xs ys : List Join} (hf : Term.combine? e = some f)
    (ho : e.operands = [left, right]) (hl : Traces schema table root left (some l) xs)
    (hr : Traces schema table root right outcome ys) :
    Traces schema table root e (outcome.map (f l)) (xs ++ ys)
  | operand {table root : String} {e left right : Expr NodeId} {xs : List Join}
    (ho : e.operands = [left, right]) (hl : Traces schema table root left none xs) :
    Traces schema table root e none xs
  | negation {table root : String} {child : Expr NodeId} {outcome : Option Term} {xs : List Join}
    (label : NodeId) (h : Traces schema table root child outcome xs) :
    Traces schema table root (.negation label child) (outcome.map .negation) xs
  | reducer {table : String} {callee : Reference} {reducer : Reducer}
    {child predicate : Expr NodeId} {r : Reduction} (root : String) (label : NodeId)
    (hr : callee.reducer? = some reducer)
    (hresolve : Reduction.resolve schema table child = .ok r) :
    Traces schema table root (.call label callee [child, predicate])
      (some (.test ⟨(r.join predicate.label root).key, r.marker reducer predicate.label⟩
        (if reducer.wantsMarker then .isOne else .isNotOne)))
      [r.join predicate.label root]
  | argument {table root : String} {callee path : Reference} {spec : Spec} {t : Table}
    {outcome : Option Term} {xs : List Join} (label label' : NodeId)
    (hs : schema.callee? callee = some spec) (ht : schema.table? path.first = some t)
    (hw : Walks schema (startOf table root path) t path.segments.tail outcome xs) :
    Traces schema table root (.call label callee [.reference label' path]) none xs
  | spec {table root row : String} {callee path : Reference} {spec : Spec} {t : Table} {term : Term}
    {xs ys : List Join} (label label' : NodeId) (hs : schema.callee? callee = some spec)
    (hpath : Typing.referenceType schema path = .ok (.table spec.table))
    (ht : schema.table? path.first = some t)
    (hw : Walks schema (startOf table root path) t path.segments.tail (some (.row row)) xs)
    (h : Traces schema spec.table row spec.body (some term) ys) :
    Traces schema table root (.call label callee [.reference label' path]) (some term) (xs ++ ys)

variable {schema : Schema} {e : Expr NodeId}

theorem walks_compileMembers (schema : Schema) (members : List String) :
    ∀ q t, ∃ result js, Walks schema q t members result.toOption js ∧
      ∀ d, (compileMembers schema q t members).run d = (result, d.addJoins js) := by
  induction members with
  | nil => exact fun q t => ⟨.ok (.row q), [], .row q t, fun d => rfl⟩
  | cons member rest ih =>
    intro q t
    unfold compileMembers
    split
    · next field hf =>
      split
      · next hrest => exact ⟨.ok _, [], hrest ▸ .field hf, fun d => rfl⟩
      · exact ⟨.error _, [], .stop q t _, fun d => rfl⟩
    · next hf =>
      split
      · exact ⟨.error _, [], .stop q t _, fun d => rfl⟩
      · next p hp =>
        split
        · exact ⟨.error _, [], .stop q t _, fun d => rfl⟩
        · next u hu =>
          have hkey : (parentJoin q p u).key = q ++ "." ++ member := by
            rw [← Table.parent?_eq_some hp]
            rfl
          obtain ⟨result, js, hw, hrun⟩ := ih (parentJoin q p u).key u
          rw [hkey] at hw
          exact ⟨result, parentJoin q p u :: js, .hop hf hp hu hw, fun d => hrun _⟩

theorem Walks.eq_row {q : String} {t u : Table} {members : List String} {term : Term}
    {js : List Join} (h : Walks schema q t members (some term) js)
    (hf : Follows schema t members u) : term = .row (qualify q members) := by
  induction hf generalizing q js with
  | nil =>
    cases h
    rfl
  | cons hf hp hu _ ih =>
    cases h with
    | field hfield =>
      rw [hf] at hfield
      cases hfield
    | hop _ hp' hu' h =>
      cases hp.symm.trans hp'
      cases hu.symm.trans hu'
      exact ih h

theorem compileReference_cases {path : Reference} {d d' : Draft}
    {result : Except CompileError Term} (h : (compileReference schema path).run d = (result, d')) :
    (∃ t js, schema.table? path.first = some t ∧ d' = d.addJoins js ∧
        Walks schema (startOf d.table d.root path) t path.segments.tail result.toOption js) ∨
      result.toOption = none ∧ d' = d := by
  by_cases hne : path.segments = []
  · obtain ⟨segments⟩ := path
    subst hne
    cases h
    exact Or.inr ⟨rfl, rfl⟩
  · cases ht : schema.table? path.first with
    | none =>
      cases (compileReference_unknown hne ht d).symm.trans h
      exact Or.inr ⟨rfl, rfl⟩
    | some t =>
      obtain ⟨_, js, hw, hrun⟩ :=
        walks_compileMembers schema path.segments.tail (startOf d.table d.root path) t
      cases ((compileReference_run hne ht d).trans (hrun d)).symm.trans h
      exact Or.inl ⟨t, js, rfl, rfl, hw⟩

theorem compileReduction_of_error {reducer : Reducer} {id : NodeId} {child : Expr NodeId}
    {predicate? : Option (Build Term)} {d d' : Draft} {error : CompileError}
    (h : (compileReduction schema reducer id child predicate?).run d = (.error error, d')) :
    d' = d := by
  simp only [compileReduction] at h
  split at h
  · cases h
    rfl
  · split at h
    · cases h
      rfl
    · cases h

theorem rowName?_eq_some {name row : String} (h : rowName? (Term.row name).render = some row) :
    row = name := by
  have htext : (Term.row name).render.toList = '[' :: (name.toList ++ [']']) := by
    simp [Term.render, bracket]
  by_cases hq : hasQualifier name.toList = true
  · simp [rowName?, htext, hq] at h
  · rw [rowName?_row (Bool.eq_false_iff.mpr hq)] at h
    exact (Option.some.inj h).symm

/-- A call of a spec on a row stops behind its argument or takes over the body. -/
theorem compileSpec_row {inline : Inline} {spec : Spec} {a : Expr NodeId} {argument : Build Term}
    {d d₁ d' : Draft} {row : String} {result : Except CompileError Term}
    (hs : schema.spec? spec.name = some spec) (ha : argument.run d = (.ok (.row row), d₁))
    (h : (compileSpec schema inline spec.name [(a, argument)]).run d = (result, d')) :
    result.toOption = none ∧ d' = d₁ ∨ ∃ term nested, result = .ok term ∧
      inline spec row = (.ok term, nested) ∧ d' = d₁.absorb nested := by
  simp only [compileSpec, hs] at h
  rw [Attempt.run_bind_ok ha] at h
  split at h
  · cases h
    exact Or.inl ⟨rfl, rfl⟩
  · next name hname =>
    obtain rfl := rowName?_eq_some hname
    split at h
    · cases h
      exact Or.inl ⟨rfl, rfl⟩
    · next term nested hi =>
      cases h
      exact Or.inr ⟨term, nested, rfl, hi, rfl⟩

/-- Every compilation traces the expression, and keeps of what was asked for each name once. -/
theorem traces_compile (he : Ends schema e) {d d' : Draft} {result : Except CompileError Term}
    (h : (compile schema e).run d = (result, d')) :
    ∃ js, Traces schema d.table d.root e result.toOption js ∧
      d'.joins = mergeBy Join.key d.joins js := by
  induction he generalizing d d' result with
  | constant ht =>
    rw [compile_constant ht] at h
    cases h
    exact ⟨[], .constant ht, rfl⟩
  | reference label path =>
    rw [compile_reference] at h
    rcases compileReference_cases h with ⟨t, js, ht, rfl, hw⟩ | ⟨hnone, rfl⟩
    · exact ⟨js, .reference label ht hw, by rw [Draft.addJoins_eq]⟩
    · rw [hnone]
      exact ⟨[], .fails _ _ _, rfl⟩
  | @operands e left right f hf ho _ _ hl hr =>
    rw [compile_operands hf ho] at h
    obtain ⟨x, d₁, hleft⟩ : ∃ x d₁, (compile schema left).run d = (x, d₁) := ⟨_, _, rfl⟩
    obtain ⟨xs, htl, hxs⟩ := hl hleft
    cases x with
    | error error =>
      cases (Attempt.run_bind_error hleft).symm.trans h
      exact ⟨xs, .operand ho htl, hxs⟩
    | ok l =>
      rw [Attempt.run_bind_ok hleft] at h
      obtain ⟨htable, hrename⟩ := (adds_compile schema left).frame hleft
      have hroot : d₁.root = d.root := by rw [Draft.root, Draft.root, htable, hrename]
      obtain ⟨y, d₂, hright⟩ : ∃ y d₂, (compile schema right).run d₁ = (y, d₂) := ⟨_, _, rfl⟩
      obtain ⟨ys, htr, hys⟩ := hr hright
      rw [htable, hroot] at htr
      have hboth := Traces.operands hf ho htl htr
      have hjoins : d₂.joins = mergeBy Join.key d.joins (xs ++ ys) := by
        rw [mergeBy_append, ← hxs, hys]
      cases y with
      | error error =>
        cases (Attempt.run_bind_error hright).symm.trans h
        exact ⟨xs ++ ys, hboth, hjoins⟩
      | ok r =>
        cases (Attempt.run_bind_ok hright).symm.trans h
        exact ⟨xs ++ ys, hboth, hjoins⟩
  | @negation label child _ ih =>
    rw [compile_negation] at h
    obtain ⟨x, d₁, hrun⟩ : ∃ x d₁, (compile schema child).run d = (x, d₁) := ⟨_, _, rfl⟩
    obtain ⟨xs, ht, hxs⟩ := ih hrun
    refine ⟨xs, ?_⟩
    cases x with
    | error error =>
      cases (Attempt.run_bind_error hrun).symm.trans h
      exact ⟨.negation label ht, hxs⟩
    | ok c =>
      cases (Attempt.run_bind_ok hrun).symm.trans h
      exact ⟨.negation label ht, hxs⟩
  | @reducer label callee reducer child predicate path hr hp _ _ =>
    rw [compile_reducer hr] at h
    cases result with
    | error error =>
      obtain rfl := compileReduction_of_error h
      exact ⟨[], .fails _ _ _, rfl⟩
    | ok term =>
      obtain ⟨r, condition, nested, hresolve, _, rfl, rfl⟩ := compileReduction_eq_ok h
      refine ⟨_, .reducer d.root label hr hresolve, ?_⟩
      rw [Draft.addJoin_eq, Draft.addCte_eq, Draft.addCtes_eq]
  | specNull label label' hs =>
    rw [compile_spec_null hs] at h
    cases h
    exact ⟨[], .fails _ _ _, rfl⟩
  | @spec label label' callee path spec hs hpath heq _ ih =>
    rw [heq] at h
    obtain ⟨x, d₁, hargument⟩ : ∃ x d₁, (compileReference schema path).run d = (x, d₁) :=
      ⟨_, _, rfl⟩
    obtain ⟨_, _, hspec⟩ := Schema.callee?_eq_some.mp hs
    cases x with
    | error error =>
      have hstop : result.toOption = none ∧ d' = d₁ := by
        simp only [compileSpec, hspec] at h
        cases (Attempt.run_bind_error hargument).symm.trans h
        exact ⟨rfl, rfl⟩
      rw [hstop.1, hstop.2]
      rcases compileReference_cases hargument with ⟨t, js, ht, rfl, hw⟩ | ⟨_, rfl⟩
      · exact ⟨js, .argument label label' hs ht hw, by rw [Draft.addJoins_eq]⟩
      · exact ⟨[], .fails _ _ _, rfl⟩
    | ok found =>
      rcases compileReference_cases hargument with ⟨t, js, ht, rfl, hw⟩ | ⟨hnone, _⟩
      · obtain ⟨t', u, ht', hfollow, _⟩ := Typing.follows_of_referenceType hpath
        cases ht.symm.trans ht'
        obtain rfl : found = _ := hw.eq_row hfollow
        rcases compileSpec_row hspec hargument h with ⟨hnone, rfl⟩ | ⟨term, nested, rfl, hi, rfl⟩
        · rw [hnone]
          exact ⟨js, .argument label label' hs ht hw, by rw [Draft.addJoins_eq]⟩
        · obtain ⟨ys, hbody, hys⟩ := ih hi
          refine ⟨js ++ ys, .spec label label' hs hpath ht hw hbody, ?_⟩
          have hnested : nested.joins = mergeBy Join.key [] ys := hys
          rw [Draft.absorb_eq, Draft.addJoins_eq, hnested, mergeBy_mergeBy, mergeBy_append]
          rfl
      · cases hnone

def IsMark (schema : Schema) (j : Join) : Prop :=
  ∃ r id root, r.parent ∈ schema.tables ∧ j = Reduction.join r id root

theorem Walks.parents {q : String} {t : Table} {members : List String} {outcome : Option Term}
    {js : List Join} (h : Walks schema q t members outcome js) :
    ∀ j ∈ js, ∃ q p u, j = parentJoin q p u := by
  induction h with
  | row | field | stop => simp
  | hop _ _ _ _ ih => exact List.forall_mem_cons.mpr ⟨⟨_, _, _, rfl⟩, ih⟩

/-- Nothing but parents and marks is asked for. -/
theorem Traces.join_cases {table root : String} {outcome : Option Term} {js : List Join}
    (h : Traces schema table root e outcome js) :
    ∀ j ∈ js, (∃ q p u, j = parentJoin q p u) ∨ IsMark schema j := by
  induction h with
  | constant | fails => simp
  | reference _ _ hw | argument _ _ _ _ hw => exact fun j hj => Or.inl (hw.parents j hj)
  | operands _ _ _ _ hl hr => exact List.forall_mem_append.mpr ⟨hl, hr⟩
  | operand _ _ ih | negation _ _ ih => exact ih
  | reducer root _ _ hresolve =>
    have hparent := Schema.mem_of_table? (parent_of_resolve hresolve)
    exact List.forall_mem_singleton.mpr (Or.inr ⟨_, _, root, hparent, rfl⟩)
  | spec _ _ _ _ _ hw _ ih =>
    exact List.forall_mem_append.mpr ⟨fun j hj => Or.inl (hw.parents j hj), ih⟩

theorem Traces.kinds {table root : String} {outcome : Option Term} {js : List Join}
    (h : Traces schema table root e outcome js) : ∀ j ∈ js, j.kind = .inner ∨ IsMark schema j := by
  intro j hj
  refine (h.join_cases j hj).imp_left ?_
  rintro ⟨q, p, u, rfl⟩
  rfl

/-- Every join is on its own name and on one that is at hand for its kind or was joined before. -/
def Ordered (names : JoinKind → String → Prop) : List Join → Prop
  | [] => True
  | j :: js => j.left.qualifier = j.key ∧ names j.kind j.right.qualifier ∧
    Ordered (fun kind x => names kind x ∨ x = j.key) js

def Behind (names : JoinKind → String → Prop) (js : List Join) (kind : JoinKind) (x : String) :
    Prop := names kind x ∨ x ∈ js.map Join.key

section Ordered

variable {names names' : JoinKind → String → Prop} {xs ys : List Join}

theorem Ordered.mono (h : Ordered names xs) (hsub : ∀ kind x, names kind x → names' kind x) :
    Ordered names' xs := by
  induction xs generalizing names names' with
  | nil => trivial
  | cons j js ih =>
    obtain ⟨hleft, hright, hrest⟩ := h
    exact ⟨hleft, hsub _ _ hright, ih hrest fun kind x => Or.imp_left (hsub kind x)⟩

theorem behind_cons (j : Join) (js : List Join) :
    Behind (fun kind x => names kind x ∨ x = j.key) js = Behind names (j :: js) := by
  funext kind x
  simp [Behind, or_assoc]

theorem ordered_append :
    Ordered names (xs ++ ys) ↔ Ordered names xs ∧ Ordered (Behind names xs) ys := by
  induction xs generalizing names with
  | nil =>
    have hnone : Behind names [] = names := by
      funext kind x
      simp [Behind]
    simp [Ordered, hnone]
  | cons j js ih => simp only [List.cons_append, Ordered, ih, behind_cons, and_assoc]

theorem mem_keys_mergeBy {k : String} :
    k ∈ (mergeBy Join.key xs ys).map Join.key ↔ k ∈ xs.map Join.key ∨ k ∈ ys.map Join.key := by
  have hany : ∀ js : List Join, k ∈ js.map Join.key ↔ js.any (·.key == k) = true := by
    intro js
    simp [List.any_eq_true]
  rw [hany, hany, hany, any_mergeBy, Bool.or_eq_true]

/-- What is left out has its name at hand already. -/
theorem ordered_mergeBy (hx : Ordered names xs) (hy : Ordered (Behind names xs) ys) :
    Ordered names (mergeBy Join.key xs ys) := by
  induction ys generalizing xs with
  | nil => exact hx
  | cons y ys ih =>
    obtain ⟨hleft, hright, hrest⟩ := hy
    cases h : xs.any (·.key == y.key) with
    | true =>
      rw [mergeBy_cons_taken h]
      refine ih hx (hrest.mono fun kind x hxy => ?_)
      rcases hxy with hxy | rfl
      · exact hxy
      · obtain ⟨i, hi, hkey⟩ := List.any_eq_true.mp h
        exact Or.inr (List.mem_map.mpr ⟨i, hi, beq_iff_eq.mp hkey⟩)
    | false =>
      rw [mergeBy_cons_free h]
      refine ih (ordered_append.mpr ⟨hx, hleft, hright, trivial⟩) (hrest.mono fun kind x hxy => ?_)
      rcases hxy with (hxy | hxy) | rfl
      · exact Or.inl hxy
      · exact Or.inr (by simp only [List.map_append, List.mem_append, hxy, true_or])
      · exact Or.inr (by simp)

theorem Ordered.before {pre post : List Join} {j : Join} (h : Ordered names (pre ++ j :: post)) :
    names j.kind j.right.qualifier ∨ ∃ i ∈ pre, i.key = j.right.qualifier := by
  obtain ⟨_, _, hright, _⟩ := ordered_append.mp h
  exact hright.imp_right List.mem_map.mp

end Ordered

def Term.names : Term → List String
  | .column c | .test c _ => [c.qualifier]
  | .row q => [q]
  | .binary _ left right | .conjunction left right | .disjunction left right =>
    names left ++ names right
  | .negation child => names child
  | _ => []

/-- The references that are compiled for the rows of an expression itself: not those in the
predicates of reducers. -/
def starts : Expr NodeId → List Reference
  | .reference _ path => [path]
  | .binary _ _ left right | .conjunction _ left right | .disjunction _ left right =>
    starts left ++ starts right
  | .negation _ child => starts child
  | .call _ _ [argument] => starts argument
  | _ => []

theorem starts_operand {o : Expr NodeId} (ho : o ∈ e.operands) :
    ∀ path ∈ starts o, path ∈ starts e := by
  intro path hp
  cases e with
  | binary | conjunction | disjunction =>
    rcases List.mem_pair.mp ho with rfl | rfl
    · simp [starts, hp]
    · simp [starts, hp]
  | negation =>
    obtain rfl := List.mem_singleton.mp ho
    simpa [starts] using hp
  | _ => cases ho

section names

variable {names : JoinKind → String → Prop} {js : List Join} {outcome : Option Term}

def Speaks (names : JoinKind → String → Prop) (js : List Join) (term : Term) : Prop :=
  ∀ x ∈ term.names, Behind names js .inner x

theorem Speaks.mono {term : Term} {xs ys : List Join} (h : Speaks names xs term)
    (hsub : ∀ k ∈ xs.map Join.key, k ∈ ys.map Join.key) : Speaks names ys term :=
  fun x hx => (h x hx).imp_right (hsub x)

theorem names_combine {f : Term → Term → Term} (hf : Term.combine? e = some f) (l r : Term) :
    (f l r).names = l.names ++ r.names := by
  cases e <;> cases hf <;> rfl

theorem Walks.ordered {q : String} {t : Table} {members : List String}
    (h : Walks schema q t members outcome js) (hq : names .inner q) :
    Ordered names js ∧ ∀ term ∈ outcome, Speaks names js term := by
  induction h generalizing names with
  | row q t =>
    refine ⟨trivial, ?_⟩
    rintro _ ⟨⟩ x hx
    exact Or.inl (List.mem_singleton.mp hx ▸ hq)
  | @field q member t field hf =>
    refine ⟨trivial, ?_⟩
    rintro _ ⟨⟩ x hx
    have hname : (fieldTerm q field).names = [q] := by
      unfold fieldTerm
      split <;> rfl
    rw [hname] at hx
    exact Or.inl (List.mem_singleton.mp hx ▸ hq)
  | stop => exact ⟨trivial, by simp⟩
  | @hop q member t u p rest outcome js hf hp hu _ ih =>
    have hkey : q ++ "." ++ member = (parentJoin q p u).key := by
      rw [← Table.parent?_eq_some hp]
      rfl
    obtain ⟨hordered, hterm⟩ :=
      @ih (fun kind x => names kind x ∨ x = (parentJoin q p u).key) (Or.inr hkey)
    refine ⟨⟨rfl, hq, hordered⟩, fun term hmem x hx => ?_⟩
    rw [← behind_cons]
    exact hterm term hmem x hx

theorem Traces.ordered {table root : String} (h : Traces schema table root e outcome js)
    (hkinds : ∀ x, names .inner x → names .left x)
    (hbodies : ∀ spec ∈ schema.specs, ∀ path ∈ starts spec.body,
      path.first = spec.table ∨ names .inner path.first)
    (hstarts : ∀ path ∈ starts e, names .inner (startOf table root path))
    (hroot : names .left root) : Ordered names js ∧ ∀ term ∈ outcome, Speaks names js term := by
  induction h generalizing names with
  | @constant _ _ e term ht =>
    refine ⟨trivial, ?_⟩
    rintro _ ⟨⟩ x hx
    cases e <;> cases ht <;> cases hx
  | fails => exact ⟨trivial, by simp⟩
  | reference label ht hw => exact hw.ordered (hstarts _ (List.mem_singleton_self _))
  | @operands _ _ e left right f l outcome xs ys hf ho _ _ hl hr =>
    obtain ⟨hxs, hterm⟩ := hl hkinds hbodies
      (fun path hp => hstarts path (starts_operand (by simp [ho]) path hp)) hroot
    obtain ⟨hys, hterm'⟩ := hr hkinds hbodies
      (fun path hp => hstarts path (starts_operand (by simp [ho]) path hp)) hroot
    refine ⟨ordered_append.mpr ⟨hxs, hys.mono fun _ _ => Or.inl⟩, ?_⟩
    intro term hmem
    obtain ⟨r, hr, rfl⟩ := Option.map_eq_some_iff.mp hmem
    intro x hx
    rw [names_combine hf] at hx
    rcases List.mem_append.mp hx with hx | hx
    · exact (hterm l rfl).mono (by simp +contextual) x hx
    · exact (hterm' r hr).mono (by simp +contextual) x hx
  | operand ho _ ih =>
    exact ih hkinds hbodies
      (fun path hp => hstarts path (starts_operand (by simp [ho]) path hp)) hroot
  | negation label _ ih =>
    obtain ⟨hxs, hterm⟩ := ih hkinds hbodies hstarts hroot
    refine ⟨hxs, fun term hmem => ?_⟩
    obtain ⟨c, hc, rfl⟩ := Option.map_eq_some_iff.mp hmem
    exact hterm c hc
  | @reducer table callee reducer child predicate r root label hr hresolve =>
    refine ⟨⟨rfl, hroot, trivial⟩, ?_⟩
    rintro _ ⟨⟩ x hx
    exact Or.inr hx
  | argument label label' hs ht hw =>
    exact ⟨(hw.ordered (hstarts _ (List.mem_singleton_self _))).1, by simp⟩
  | @spec table root row callee path spec t term xs ys label label' hs hpath ht hw _ ih =>
    obtain ⟨hxs, hrow⟩ := hw.ordered (hstarts path (List.mem_singleton_self _))
    have hrow : Behind names xs .inner row := hrow _ rfl row (List.mem_singleton_self _)
    -- in the body the row is at hand, which is so behind the joins of the argument
    have hhand : ∀ kind x, (names kind x ∨ x = row) → Behind names xs kind x := by
      rintro kind x (hx | rfl)
      · exact Or.inl hx
      · cases kind with
        | inner => exact hrow
        | left => exact hrow.imp_left (hkinds x)
    obtain ⟨hys, hterm⟩ := @ih (fun kind x => names kind x ∨ x = row)
      (fun x => Or.imp_left (hkinds x))
      (fun spec hs path hp => (hbodies spec hs path hp).imp_right Or.inl) (by
        intro path hp
        unfold startOf
        split
        · exact Or.inr rfl
        · next hne =>
          have hbody := hbodies spec (Schema.mem_specs_of_callee? hs) path hp
          exact Or.inl (hbody.resolve_left hne))
      (Or.inr rfl)
    refine ⟨ordered_append.mpr ⟨hxs, hys.mono hhand⟩, ?_⟩
    rintro _ ⟨⟩ x hx
    rw [Behind, List.map_append, List.mem_append, ← or_assoc]
    rcases hterm _ rfl x hx with hx | hx
    · exact Or.inl (hhand .inner x hx)
    · exact Or.inr hx

/-- From a draft without joins, every compilation leaves them in order, and the term that it comes
to speaks of rows at hand. -/
theorem ordered_compile (he : Ends schema e) {d d' : Draft} {result : Except CompileError Term}
    (hd : d.joins = []) (h : (compile schema e).run d = (result, d'))
    (hkinds : ∀ x, names .inner x → names .left x)
    (hbodies : ∀ spec ∈ schema.specs, ∀ path ∈ starts spec.body,
      path.first = spec.table ∨ names .inner path.first)
    (hstarts : ∀ path ∈ starts e, names .inner (startOf d.table d.root path))
    (hroot : names .left d.root) :
    Ordered names d'.joins ∧ ∀ term, result = .ok term → Speaks names d'.joins term := by
  obtain ⟨js, ht, hjs⟩ := traces_compile he h
  obtain ⟨hordered, hterm⟩ := ht.ordered hkinds hbodies hstarts hroot
  have hmerged : Ordered (Behind names []) js := hordered.mono fun _ _ => Or.inl
  rw [hjs, hd]
  refine ⟨ordered_mergeBy trivial hmerged, ?_⟩
  rintro term rfl
  exact (hterm term rfl).mono fun k hk => mem_keys_mergeBy.mpr (Or.inr hk)

end names

end RowSpec.Sql
