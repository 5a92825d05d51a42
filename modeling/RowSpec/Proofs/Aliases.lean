import RowSpec.Proofs.ParentJoins

/-! Names in the selections of a statement. Each is to be introduced once, by the table or by a
join, and before it is used. The check of references does not ask for as much: it lets the predicate
of a reducer speak of every table around it, while the selection for the reducer has two tables, the
one that the reducer is asked on and that of the children; and these two may be the same. Where
references keep to the two, and the two are different, the names are all right. -/
namespace RowSpec

namespace Sql

def Selection.aliases (s : Selection) : List String := s.table :: s.joins.map Join.key

def JoinsInScope (seen : List String) : List Join → Prop
  | [] => True
  | j :: js => j.left.qualifier ∈ j.key :: seen ∧ j.right.qualifier ∈ j.key :: seen ∧
    JoinsInScope (j.key :: seen) js

instance decidableJoinsInScope (seen : List String) :
    ∀ js : List Join, Decidable (JoinsInScope seen js)
  | [] => isTrue trivial
  | j :: js =>
    have := decidableJoinsInScope (j.key :: seen) js
    inferInstanceAs (Decidable (_ ∧ _ ∧ _))

def Selection.WellScoped (s : Selection) : Prop :=
  s.aliases.Nodup ∧ JoinsInScope [s.table] s.joins ∧ ∀ x ∈ s.condition.names, x ∈ s.aliases

instance (s : Selection) : Decidable s.WellScoped := inferInstanceAs (Decidable (_ ∧ _ ∧ _))

def Statement.WellScoped (s : Statement) : Prop :=
  s.body.WellScoped ∧ ∀ c ∈ s.ctes, c.body.WellScoped ∧ c.id.qualifier ∈ c.body.aliases

instance (s : Statement) : Decidable s.WellScoped :=
  inferInstanceAs (Decidable (_ ∧ ∀ c ∈ s.ctes, _))

/-- Whether every reference starts from a name at hand: outside of reducers from one of `names`, and
in the predicate of a reducer from the table that it is asked on or from that of the children, which
have to be two. -/
def isLocal (names : List String) (table : String) : Expr NodeId → Bool
  | .reference _ path => path.first ∈ names
  | .binary _ _ left right | .conjunction _ left right | .disjunction _ left right =>
    isLocal names table left && isLocal names table right
  | .negation _ child => isLocal names table child
  | .call _ _ [argument] => isLocal names table argument
  | .call _ _ [child, predicate] =>
    child.childPath?.all fun path =>
      path.first != table && isLocal [path.first, table] path.first predicate
  | _ => true

end Sql

open Sql

/-- The names of tables have no points in them, and are not names of common table expressions. -/
def Schema.PlainTables (s : Schema) : Prop :=
  ∀ t ∈ s.tables, '.' ∉ t.name.toList ∧ ∀ u ∈ s.tables, ¬ AddsDigits ("Annotated" ++ u.name) t.name

instance (s : Schema) : Decidable s.PlainTables :=
  inferInstanceAs (Decidable (∀ t ∈ s.tables, '.' ∉ t.name.toList ∧
    ∀ u ∈ s.tables, ¬ AddsDigits ("Annotated" ++ u.name) t.name))

namespace Sql

variable {schema : Schema} {table table' : String} {e k : Expr NodeId} {names : List String}

theorem first_mem_of_isLocal (h : isLocal names table e = true) :
    ∀ path ∈ starts e, path.first ∈ names := by
  fun_induction starts e with
  | case1 label path => simpa [isLocal] using h
  | case2 _ _ l r hl hr | case3 _ l r hl hr | case4 _ l r hl hr =>
    obtain ⟨hleft, hright⟩ := Bool.and_eq_true_iff.mp h
    exact List.forall_mem_append.mpr ⟨hl hleft, hr hright⟩
  | case5 _ child hc => exact hc h
  | case6 _ callee argument ha => exact ha h
  | case7 => simp

theorem isLocal_operand {o : Expr NodeId} (ho : o ∈ e.operands) (h : isLocal names table e = true) :
    isLocal names table o = true := by
  cases e with
  | binary | conjunction | disjunction =>
    obtain ⟨hleft, hright⟩ := Bool.and_eq_true_iff.mp h
    rcases List.mem_pair.mp ho with rfl | rfl
    · exact hleft
    · exact hright
  | negation =>
    obtain rfl := List.mem_singleton.mp ho
    exact h
  | _ => cases ho

theorem isLocal_predicate {label : NodeId} {callee path : Reference} {child predicate : Expr NodeId}
    (hp : child.childPath? = some path)
    (h : isLocal names table (.call label callee [child, predicate]) = true) :
    path.first ≠ table ∧ isLocal [path.first, table] path.first predicate = true := by
  simpa [isLocal, hp] using h

theorem Visits.isLocal (h : Visits schema table e table' k)
    (hspecs : ∀ spec ∈ schema.specs, isLocal [spec.table] spec.table spec.body = true)
    (he : isLocal names table e = true) : ∃ names', isLocal names' table' k = true := by
  induction h generalizing names with
  | here => exact ⟨names, he⟩
  | operand ho _ ih => exact ih (isLocal_operand ho he)
  | body hs _ ih => exact ih (hspecs _ (Schema.mem_specs_of_callee? hs))
  | predicate _ hp _ ih => exact ih (isLocal_predicate hp he).2

theorem Ordered.inScope {names : JoinKind → String → Prop} {js : List Join} {seen : List String}
    (h : Ordered names js) (hseen : ∀ kind x, names kind x → x ∈ seen) : JoinsInScope seen js := by
  induction js generalizing names seen with
  | nil => trivial
  | cons j js ih =>
    obtain ⟨hleft, hright, hrest⟩ := h
    refine ⟨?_, List.mem_cons_of_mem _ (hseen _ _ hright), ih hrest ?_⟩
    · rw [hleft]
      exact List.mem_cons_self
    · rintro kind x (hx | rfl)
      · exact List.mem_cons_of_mem _ (hseen kind x hx)
      · exact List.mem_cons_self

theorem IsMark.key_cases {j : Join} (h : IsMark schema j) : '.' ∈ j.key.toList ∨
    ∃ u ∈ schema.tables, AddsDigits ("Annotated" ++ u.name) j.key := by
  obtain ⟨r, id, root, hparent, rfl⟩ := h
  unfold Reduction.join Join.key
  by_cases hroot : root = r.parent.name
  · refine Or.inr ⟨r.parent, hparent, ?_⟩
    simpa [hroot, Reduction.cteName] using addsDigits_render ("Annotated" ++ r.parent.name) id
  · exact Or.inl (by simp [hroot])

/-- The names of joins are different from one another and from those of plain tables. -/
theorem keys_apart (hplain : schema.PlainTables) (he : Ends schema e) {d d' : Draft}
    {result : Except CompileError Term} (hd : d.joins = [])
    (hrun : (compile schema e).run d = (result, d')) :
    (d'.joins.map Join.key).Nodup ∧ ∀ t ∈ schema.tables, t.name ∉ d'.joins.map Join.key := by
  obtain ⟨js, htraces, hjoins⟩ := traces_compile he hrun
  rw [hd] at hjoins
  constructor
  · rw [hjoins]
    refine nodup_mergeBy ?_ js
    exact List.nodup_nil
  · intro t ht hmem
    obtain ⟨hpoint, hdigits⟩ := hplain t ht
    obtain ⟨j, hj, hkey⟩ := List.mem_map.mp hmem
    rw [hjoins] at hj
    rw [← hkey] at hpoint
    rcases htraces.join_cases j (mem_of_mem_mergeBy_nil j hj) with ⟨q, p, u, rfl⟩ | hmark
    · exact hpoint (by simp [parentJoin, Join.key])
    · rcases hmark.key_cases with h | ⟨u, hu, hadds⟩
      · exact hpoint h
      · exact hdigits u hu (hkey ▸ hadds)

/-- A local expression keeps to the names at hand, also where it goes into the bodies of specs. -/
theorem ordered_local
    (hspecs : ∀ spec ∈ schema.specs, isLocal [spec.table] spec.table spec.body = true)
    (he : Ends schema e) (hlocal : isLocal names table e = true) (htable : table ∈ names)
    {term : Term} {d : Draft} (hrun : (compile schema e).run (.ofTable table) = (.ok term, d)) :
    JoinsInScope names d.joins ∧ ∀ x ∈ term.names, x ∈ names ∨ x ∈ d.joins.map Join.key := by
  have hbodies : ∀ spec ∈ schema.specs, ∀ path ∈ starts spec.body,
      path.first = spec.table ∨ path.first ∈ names :=
    fun spec hs path hp =>
      Or.inl (List.mem_singleton.mp (first_mem_of_isLocal (hspecs spec hs) path hp))
  have hstarts : ∀ path ∈ starts e, startOf table table path ∈ names := by
    intro path hp
    rw [startOf_self]
    exact first_mem_of_isLocal hlocal path hp
  obtain ⟨hordered, hterm⟩ := @ordered_compile schema e (fun _ x => x ∈ names) he _ _ _ rfl hrun
    (fun _ hx => hx) hbodies hstarts htable
  exact ⟨hordered.inScope fun _ _ hx => hx, hterm term rfl⟩

/-- The selection for a local expression over a table. -/
theorem wellScoped_body (hplain : schema.PlainTables)
    (hspecs : ∀ spec ∈ schema.specs, isLocal [spec.table] spec.table spec.body = true)
    (he : Ends schema e) (hlocal : isLocal [table] table e = true) {t : Table}
    (ht : schema.table? table = some t) {term : Term} {d : Draft}
    (hrun : (compile schema e).run (.ofTable table) = (.ok term, d)) :
    (d.statement term).body.WellScoped := by
  obtain ⟨hnodup, hapart⟩ := keys_apart hplain he rfl hrun
  obtain ⟨hscope, hterm⟩ := ordered_local hspecs he hlocal (List.mem_singleton_self _) hrun
  have hframe : d.table = table := ((adds_compile schema e).frame hrun).1
  have hname : table ∉ d.joins.map Join.key := by
    rw [← Schema.table?_eq_some ht]
    exact hapart t (Schema.mem_of_table? ht)
  rw [← hframe] at hname hscope hterm
  refine ⟨List.nodup_cons.mpr ⟨hname, hnodup⟩, hscope, fun x hx => ?_⟩
  rcases hterm x hx with hx | hx
  · exact List.mem_singleton.mp hx ▸ List.mem_cons_self
  · exact List.mem_cons_of_mem _ hx

/-- The selection that a reducer asks for on a table. -/
theorem wellScoped_cte (hplain : schema.PlainTables)
    (hspecs : ∀ spec ∈ schema.specs, isLocal [spec.table] spec.table spec.body = true)
    (hshaped : ∀ spec ∈ schema.specs, spec.body.Shaped schema) (hk : k.Shaped schema)
    (hlocal : isLocal names table k = true) {c : Cte} (h : SetsUp schema table k c) :
    c.body.WellScoped ∧ c.id.qualifier ∈ c.body.aliases := by
  obtain @⟨label, callee, reducer, child, predicate, r, condition, nested, hr, hresolve, hrun⟩ := h
  refine ⟨?_, List.mem_cons_self⟩
  obtain ⟨path, hp⟩ := childPath?_of_resolve hresolve
  have hchild := resolve_eq_ok hp hresolve
  have hparent := parent_of_resolve hresolve
  have hfirst : r.child.name = path.first := Schema.table?_eq_some hchild
  have htable : r.parent.name = table := Schema.table?_eq_some hparent
  obtain ⟨hne, hpredicate⟩ := isLocal_predicate hp hlocal
  rw [← hfirst, ← htable] at hne hpredicate
  have hends : Ends schema predicate :=
    ends_of_run hshaped (hk.of_subset (Expr.mem_nodes_argument (by simp))) hrun
  obtain ⟨hnodup, hapart⟩ := keys_apart hplain hends rfl hrun
  obtain ⟨hscope, hterm⟩ := ordered_local hspecs hends hpredicate List.mem_cons_self hrun
  have haliases : (r.cte reducer predicate.label nested.joins condition).body.aliases =
      r.parent.name :: r.child.name :: nested.joins.map Join.key := rfl
  have hnames : (r.cte reducer predicate.label nested.joins condition).body.condition.names =
      condition.names := by
    cases reducer <;> rfl
  refine ⟨?_, ⟨List.mem_cons_self, List.mem_cons_of_mem _ List.mem_cons_self, hscope⟩, ?_⟩
  · rw [haliases, List.nodup_cons, List.nodup_cons, List.mem_cons, not_or]
    exact ⟨⟨hne.symm, hapart r.parent (Schema.mem_of_table? hparent)⟩,
      hapart r.child (Schema.mem_of_table? hchild), hnodup⟩
  · intro x hx
    rw [hnames] at hx
    rw [haliases, List.mem_cons, List.mem_cons]
    rcases hterm x hx with hx | hx
    · rcases List.mem_pair.mp hx with rfl | rfl
      · exact Or.inr (Or.inl rfl)
      · exact Or.inl rfl
    · exact Or.inr (Or.inr hx)

end Sql

variable {schema : Schema} {table source : String} {e : Expr NodeId} {c : Counter}
  {stmt : Statement}

/-- In the statement for a source whose references are local, over a schema of which this is true as
well, every selection introduces a name once and before it is used. -/
theorem statement_wellScoped (hb : schema.Built) (hcheck : schema.check = .ok ())
    (hplain : schema.PlainTables)
    (hspecs : ∀ spec ∈ schema.specs, isLocal [spec.table] spec.table spec.body = true)
    (hp : parseSource schema.counter source = (.ok e, c)) (hlocal : isLocal [table] table e = true)
    (h : (schema.compileSource table source).1 = .ok stmt) : stmt.WellScoped := by
  have hy : schema.Yields 0 _ table e stmt := .source hp h
  obtain ⟨haccepted, hselect⟩ := hy.accepted hb hcheck
  obtain ⟨hgather, _⟩ := hy.gathers hb hcheck
  have hshaped := Schema.shaped_spec hb hcheck
  obtain ⟨term, d, hrun, rfl⟩ := select_eq_ok hselect
  have hends := ends_of_run hshaped haccepted.shaped hrun
  obtain ⟨t, ht⟩ := Option.isSome_iff_exists.mp haccepted.registered
  refine ⟨wellScoped_body hplain hspecs hends hlocal ht hrun, fun c hc => ?_⟩
  obtain ⟨k, table', hv, hset⟩ := hgather.owned c hc
  obtain ⟨names, hk⟩ := hv.isLocal hspecs hlocal
  exact wellScoped_cte hplain hspecs hshaped (hv.shaped hb hcheck haccepted).2 hk hset

/-- A predicate that speaks of the account it is asked on, and calls a spec for its deputy. -/
theorem statement_wellScoped_sales : sales.Built ∧ sales.check = .ok () ∧ sales.PlainTables ∧
    (∀ spec ∈ sales.specs, isLocal [spec.table] spec.table spec.body = true) ∧ ∃ e c stmt,
      parseSource sales.counter ("Busy(Account.Owner) and any(Contact, Contact.Open and " ++
        "Busy(Account.Deputy))") = (.ok e, c) ∧ isLocal ["Account"] "Account" e = true ∧
      (sales.compileSource "Account" ("Busy(Account.Owner) and any(Contact, Contact.Open and " ++
        "Busy(Account.Deputy))")).1 = .ok stmt ∧ stmt.WellScoped := by
  have hparse : (parseSource sales.counter ("Busy(Account.Owner) and any(Contact, " ++
      "Contact.Open and Busy(Account.Deputy))")).1.toOption.any (fun e =>
        isLocal ["Account"] "Account" e) = true := by
    decide +kernel
  have hrun : (sales.compileSource "Account" ("Busy(Account.Owner) and any(Contact, " ++
      "Contact.Open and Busy(Account.Deputy))")).1.toOption.any (fun _ => true) = true := by
    decide +kernel
  obtain ⟨e, c, hp, hlocal⟩ := parseSource_of_any hparse
  obtain ⟨stmt, hstmt, _⟩ := ok_of_any hrun
  have hplain : sales.PlainTables := by decide +kernel
  have hspecs : ∀ spec ∈ sales.specs, isLocal [spec.table] spec.table spec.body = true := by
    decide +kernel
  exact ⟨sales_built, sales_check, hplain, hspecs, e, c, stmt, hp, hlocal, hstmt,
    statement_wellScoped sales_built sales_check hplain hspecs hp hlocal hstmt⟩

def ladder : Schema :=
  .withTables [⟨"User", "Id", [⟨"Id", .number⟩, ⟨"Active", .boolean⟩], []⟩,
    ⟨"Account", "Id", [⟨"Id", .number⟩, ⟨"OwnerId", .number⟩], [⟨"Owner", "User", "OwnerId"⟩]⟩,
    ⟨"Contact", "Id", [⟨"Id", .number⟩, ⟨"AccountId", .number⟩],
      [⟨"Account", "Account", "AccountId"⟩]⟩]

def managers : Schema :=
  .withTables [⟨"User", "Id", [⟨"Id", .number⟩, ⟨"Active", .boolean⟩, ⟨"ManagerId", .number⟩],
      [⟨"Manager", "User", "ManagerId"⟩]⟩]

/-- Two levels down in reducers the outermost table is not at hand, and the children of a table in
itself come under the name of the table. -/
theorem aliases_out_of_scope :
    (ladder.Built ∧ ladder.check = .ok () ∧ ladder.PlainTables ∧ ∃ stmt,
      (ladder.compileSource "User" "any(Account, any(Contact, User.Active))").1 = .ok stmt ∧
        ¬ stmt.WellScoped ∧ ∃ c ∈ stmt.ctes, c.body.aliases = ["Account", "Contact"] ∧
          c.body.condition.names = ["User"]) ∧
      managers.Built ∧ managers.check = .ok () ∧ managers.PlainTables ∧ ∃ stmt,
        (managers.compileSource "User" "any(User.Manager, User.Active)").1 = .ok stmt ∧
          ¬ stmt.WellScoped ∧ ∃ c ∈ stmt.ctes, c.body.aliases = ["User", "User"] := by
  have hladder : (ladder.compileSource "User"
      "any(Account, any(Contact, User.Active))").1.toOption.any (fun stmt =>
        ¬ stmt.WellScoped ∧ ∃ c ∈ stmt.ctes, c.body.aliases = ["Account", "Contact"] ∧
          c.body.condition.names = ["User"]) = true := by
    decide +kernel
  have hmanagers : (managers.compileSource "User"
      "any(User.Manager, User.Active)").1.toOption.any (fun stmt =>
        ¬ stmt.WellScoped ∧ ∃ c ∈ stmt.ctes, c.body.aliases = ["User", "User"]) = true := by
    decide +kernel
  obtain ⟨stmt, hstmt, hscope⟩ := ok_of_any hladder
  obtain ⟨stmt', hstmt', hscope'⟩ := ok_of_any hmanagers
  exact ⟨⟨Schema.built_withTables _, by decide +kernel, by decide +kernel, stmt, hstmt,
      of_decide_eq_true hscope⟩,
    Schema.built_withTables _, by decide +kernel, by decide +kernel, stmt', hstmt',
    of_decide_eq_true hscope'⟩

end RowSpec
