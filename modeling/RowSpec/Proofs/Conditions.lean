import RowSpec.Proofs.Numerals
import RowSpec.Proofs.ParentJoins

/-! The grammar of the conditions in a statement. A condition of a checked expression is put together
from comparisons of scalars and from tests of columns, with three exceptions: the operand of a
comparison may be a condition in its own right, the condition of a reducer may be a mere scalar, and
a number past the last finite one is no decimal. Where none of the three comes up, neither does a
text outside of the grammar. The grammar gives the term along with its text, and its names are those
that the schema has: a name of any characters would let one text be read in two ways. -/
namespace RowSpec

theorem Operator.isComparison_of {op : Operator} (h : op ≠ .and ∧ op ≠ .or)
    (ha : op.isArithmetic = false) : op.isComparison = true := by
  cases op <;> simp_all [Operator.isArithmetic, Operator.isComparison]

namespace Typing

/-- Arithmetic is on numbers. All else compares, and truth values only for equality. -/
theorem binaryType_cases {op : Operator} {a b ty : Ty} (h : binaryType op a b = .ok ty) :
    (op.isArithmetic = true ∧ a = .number ∧ b = .number ∧ ty = .number) ∨
      (op.isArithmetic = false ∧ ty = .boolean ∧
        (a = .boolean ∨ b = .boolean → op.isEquality = true)) := by
  rcases binaryType_eq_ok_iff.mp h with
    ⟨ha, rfl, rfl, rfl⟩ | ⟨ha, _, rfl, ho, rfl⟩ | ⟨ha, heq, _, _, _, rfl⟩
  · exact Or.inl ⟨ha, rfl, rfl, rfl⟩
  · refine Or.inr ⟨ha, rfl, ?_⟩
    rintro (rfl | rfl) <;> cases ho
  · exact Or.inr ⟨ha, rfl, fun _ => heq⟩

end Typing

namespace Expr

variable {schema : Schema}

/-- Whether the expression comes down to a truth value: one of the two words, or the call of a spec
whose body comes down to one, through so many calls at most. -/
def isTruth (schema : Schema) : Nat → Expr NodeId → Bool
  | _, .boolean _ _ => true
  | depth + 1, .call _ callee _ =>
    (schema.callee? callee).any fun spec => isTruth schema depth spec.body
  | _, _ => false

end Expr

namespace Sql

inductive Symbol where
  | predicate
  | scalar
  deriving DecidableEq, Repr

def Symbol.ofTy : Ty → Symbol
  | .boolean => .predicate
  | _ => .scalar

theorem Symbol.ofTy_ne {ty : Ty} (h : ty ≠ .boolean) : ofTy ty = .scalar := by
  cases ty <;> first | rfl | exact absurd rfl h

def IsDecimal (text : String) : Prop :=
  ∃ (negative : Bool) (whole fraction : List Char), whole ≠ [] ∧
    (whole ++ fraction).all Char.isDigit = true ∧
    text = String.ofList ((if negative then ['-'] else []) ++
      (whole ++ if fraction = [] then [] else '.' :: fraction))

structure Leeway where
  infinity : Bool
  predicateOperands : Bool
  scalarConditions : Bool
  deriving DecidableEq, Repr

def Leeway.none : Leeway := ⟨false, false, false⟩

def IsField (schema : Schema) (c : Column) : Prop :=
  ∃ t, Leads schema c.qualifier t ∧ ∃ f ∈ t.fields, f.name = c.name ∧ IsIdentifier c.name.toList

/-- What a reducer has marked: children of the second table with the rows of the first. These go by
the name of a common table expression, behind that of a path if one leads to them. -/
def IsMarker (schema : Schema) (c : Column) : Prop :=
  ∃ t ∈ schema.tables, ∃ u ∈ schema.tables, ∃ (reducer : Reducer) (id : NodeId),
    c.name = reducer.markerStem ++ u.name ++ id.render ∧
      (c.qualifier = "Annotated" ++ t.name ++ id.render ∨ ∃ root, Leads schema root t ∧
        c.qualifier = root ++ "." ++ ("Annotated" ++ t.name ++ id.render))

/-- The texts of predicates and scalars, each with the term that it is the text of. -/
inductive Generates (schema : Schema) (a : Leeway) : Symbol → Term → String → Prop where
  | conjunction {x y : Term} {l r : String} (hl : Generates schema a .predicate x l)
    (hr : Generates schema a .predicate y r) :
    Generates schema a .predicate (.conjunction x y) ("(" ++ l ++ " AND " ++ r ++ ")")
  | disjunction {x y : Term} {l r : String} (hl : Generates schema a .predicate x l)
    (hr : Generates schema a .predicate y r) :
    Generates schema a .predicate (.disjunction x y) ("(" ++ l ++ " OR " ++ r ++ ")")
  | negation {x : Term} {s : String} (h : Generates schema a .predicate x s) :
    Generates schema a .predicate (.negation x) ("NOT(" ++ s ++ ")")
  | comparison {x y : Term} {l r : String} (op : Operator) (hop : op.isComparison = true)
    (hl : Generates schema a .scalar x l) (hr : Generates schema a .scalar y r) :
    Generates schema a .predicate (.binary op x y)
      ("(" ++ l ++ " " ++ op.render ++ " " ++ r ++ ")")
  | test {c : Column} (t : Test) (h : IsField schema c ∨ IsMarker schema c) :
    Generates schema a .predicate (.test c t) (c.render ++ t.render)
  | truth (symbol : Symbol) (value : Bool) :
    Generates schema a symbol (.boolean value) (if value then "TRUE" else "FALSE")
  | decimal {value : Double} {s : String} (h : IsDecimal s) (hs : value.render = s) :
    Generates schema a .scalar (.number value) s
  | string (value : String) : Generates schema a .scalar (.string value) (Text.quote value)
  | null : Generates schema a .scalar .null "NULL"
  | column {c : Column} (h : IsField schema c) : Generates schema a .scalar (.column c) c.render
  | row {name : String} {t : Table} (h : Leads schema name t) :
    Generates schema a .scalar (.row name) (bracket name)
  | arithmetic {x y : Term} {l r : String} (op : Operator) (hop : op.isArithmetic = true)
    (hl : Generates schema a .scalar x l) (hr : Generates schema a .scalar y r) :
    Generates schema a .scalar (.binary op x y) ("(" ++ l ++ " " ++ op.render ++ " " ++ r ++ ")")
  | infinite (ha : a.infinity = true) {value : Double} (hv : value.isFinite = false) :
    Generates schema a .scalar (.number value) value.render
  | equality (ha : a.predicateOperands = true) {p q : Symbol} {x y : Term} {l r : String}
    (op : Operator) (hop : op.isEquality = true) (hl : Generates schema a p x l)
    (hr : Generates schema a q y r) : Generates schema a .predicate (.binary op x y)
      ("(" ++ l ++ " " ++ op.render ++ " " ++ r ++ ")")

/-- The condition of a common table expression: a predicate, or a scalar, possibly negated, if there
is room for one. -/
def IsCondition (schema : Schema) (a : Leeway) (term : Term) (text : String) : Prop :=
  Generates schema a .predicate term text ∨ a.scalarConditions = true ∧
    ∃ x s, Generates schema a .scalar x s ∧
      (term = x ∧ text = s ∨ term = .negation x ∧ text = "NOT(" ++ s ++ ")")

def Term.isTest : Term → Bool
  | .test _ _ => true
  | _ => false

/-- Whether some comparison has an operand that is a comparison without parentheses. -/
def Term.comparesTest : Term → Bool
  | .binary op x y => (op.isComparison && (x.isTest || y.isTest)) ||
    x.comparesTest || y.comparesTest
  | .conjunction x y | .disjunction x y => x.comparesTest || y.comparesTest
  | .negation x => x.comparesTest
  | _ => false

def Leeway.permits (a : Leeway) (schema : Schema) : Expr NodeId → Bool
  | .number _ value => value.isFinite || a.infinity
  | .binary _ _ left right => a.predicateOperands || [left, right].all fun o =>
    o.typeOf schema ≠ .ok .boolean || o.isTruth schema schema.specs.length
  | .call _ callee [_, predicate] => callee.reducer?.isNone ||
    predicate.typeOf schema = .ok .boolean || a.scalarConditions
  | _ => true

variable {schema : Schema} {a : Leeway} {e : Expr NodeId} {ty : Ty} {term : Term}

theorem Leeway.permits_binary {label : NodeId} {op : Operator} {left right : Expr NodeId}
    (h : a.permits schema (.binary label op left right) = true) : a.predicateOperands = true ∨
      ∀ o ∈ [left, right], o.typeOf schema = .ok .boolean →
        o.isTruth schema schema.specs.length = true := by
  refine (Bool.or_eq_true_iff.mp h).imp_right ?_
  intro hall o ho hty
  have hone := List.all_eq_true.mp hall o ho
  simpa [hty] using hone

theorem Leeway.permits_reducer {label : NodeId} {callee : Reference} {reducer : Reducer}
    {child predicate : Expr NodeId}
    (h : a.permits schema (.call label callee [child, predicate]) = true)
    (hr : callee.reducer? = some reducer) :
    predicate.typeOf schema = .ok .boolean ∨ a.scalarConditions = true := by
  simpa [Leeway.permits, hr] using h

theorem Generates.isTest_eq_false {text : String} (h : Generates schema a .scalar term text) :
    term.isTest = false := by
  cases h <;> rfl

/-- Without room for predicates as operands, no operand of a comparison is a test. -/
theorem Generates.comparesTest_eq_false (ha : a.predicateOperands = false) {symbol : Symbol}
    {text : String} (h : Generates schema a symbol term text) : term.comparesTest = false := by
  induction h with
  | conjunction _ _ hl hr | disjunction _ _ hl hr => simp [Term.comparesTest, hl, hr]
  | negation _ ih => exact ih
  | comparison op hop hx hy hl hr | arithmetic op hop hx hy hl hr =>
    simp [Term.comparesTest, hl, hr, hx.isTest_eq_false, hy.isTest_eq_false]
  | equality hroom => rw [ha] at hroom; cases hroom
  | _ => rfl

theorem IsCondition.comparesTest_eq_false (ha : a.predicateOperands = false) {text : String}
    (h : IsCondition schema a term text) : term.comparesTest = false := by
  rcases h with h | ⟨_, x, s, h, ⟨rfl, _⟩ | ⟨rfl, _⟩⟩
  · exact h.comparesTest_eq_false ha
  · exact h.comparesTest_eq_false ha
  · rw [Term.comparesTest]
    exact h.comparesTest_eq_false ha

theorem generates_number {value : Double} (h : value.isFinite = true ∨ a.infinity = true) :
    Generates schema a .scalar (.number value) value.render := by
  by_cases hv : value.isFinite = true
  · cases value with
    | finite negative rank =>
      obtain ⟨whole, fraction, htext, hne, hdigits, _⟩ := Double.render_finite negative rank
      refine .decimal ?_ rfl
      exact ⟨negative, whole, fraction, hne, List.all_eq_true.mpr hdigits, htext⟩
    | infinite | nan => cases hv
  · exact .infinite (h.resolve_left hv) (Bool.eq_false_iff.mpr hv)

theorem generates_field {q member : String} {t : Table} {field : Field} (hq : Leads schema q t)
    (hf : t.field? member = some field) (hid : IsIdentifier member.toList) :
    Generates schema a (.ofTy field.type.ty) (fieldTerm q field) (fieldTerm q field).render := by
  have hname : field.name = member := by simpa using List.find?_some hf
  have hfield : IsField schema ⟨q, field.name⟩ :=
    ⟨t, hq, field, List.mem_of_find?_eq_some hf, rfl, by rwa [hname]⟩
  unfold fieldTerm
  cases field.type with
  | boolean => exact .test .isOne (Or.inl hfield)
  | _ => exact .column hfield

/-- The end of a path is a predicate if it is a boolean field, and otherwise a scalar. -/
theorem Walks.generates {q : String} {t : Table} {members : List String} {outcome : Option Term}
    {js : List Join} (h : Walks schema q t members outcome js) {path : Reference}
    (hty : Typing.memberType schema path t members = .ok ty) (hq : Leads schema q t)
    (hids : ∀ member ∈ members, IsIdentifier member.toList) :
    ∀ term ∈ outcome, Generates schema a (.ofTy ty) term term.render := by
  induction h with
  | row q t =>
    cases hty
    rintro _ ⟨⟩
    exact .row hq
  | @field q member t field hf =>
    simp only [Typing.memberType, hf, if_true] at hty
    cases hty
    rintro _ ⟨⟩
    exact generates_field hq hf (hids member (List.mem_singleton_self _))
  | stop =>
    rintro _ ⟨⟩
  | hop hf hp ht _ ih =>
    simp only [Typing.memberType, hf, hp, ht] at hty
    obtain ⟨hhop, hrest⟩ := List.forall_mem_cons.mp hids
    exact ih hty (hq.hop hhop hf hp ht) hrest

/-- The marks of a reducer are under the name of its common table expression. -/
theorem isMarker_reducer {table root : String} {child : Expr NodeId} {r : Reduction}
    (hresolve : Reduction.resolve schema table child = .ok r) (hroot : RowsOf schema table root)
    (reducer : Reducer) (id : NodeId) :
    IsMarker schema ⟨(r.join id root).key, r.marker reducer id⟩ := by
  have hparent := parent_of_resolve hresolve
  obtain ⟨path, hp⟩ := childPath?_of_resolve hresolve
  have hchild := Schema.mem_of_table? (resolve_eq_ok hp hresolve)
  refine ⟨r.parent, Schema.mem_of_table? hparent, r.child, hchild, reducer, id, rfl, ?_⟩
  by_cases hname : root = r.parent.name
  · left
    simp [Reduction.join, Join.key, Reduction.cteName, hname]
  · right
    obtain rfl := Schema.table?_eq_some hparent
    rcases hroot with rfl | ⟨t, ht, htable⟩
    · exact absurd rfl hname
    · have hregistered := ht.registered
      rw [htable, hparent] at hregistered
      cases hregistered
      refine ⟨root, ht, ?_⟩
      simp [Reduction.join, Join.key, Reduction.cteName, hname]

variable {table root : String} {outcome : Option Term} {js : List Join}

theorem Traces.eq_boolean_of_isTruth (h : Traces schema table root e outcome js) {depth : Nat}
    (ht : e.isTruth schema depth = true) : ∀ term ∈ outcome, ∃ value, term = .boolean value := by
  induction h generalizing depth with
  | @constant _ _ e _ hterm =>
    rintro _ ⟨⟩
    cases e with
    | boolean label value => cases hterm; exact ⟨value, rfl⟩
    | call => cases hterm
    | _ => simp [Expr.isTruth] at ht
  | fails | operand | argument => simp
  | reference | negation => simp [Expr.isTruth] at ht
  | @operands _ _ e _ _ _ _ _ _ _ hf =>
    cases e <;> cases hf
    all_goals simp [Expr.isTruth] at ht
  | @reducer _ callee _ _ _ _ _ _ hr =>
    cases depth with
    | zero => simp [Expr.isTruth] at ht
    | succ depth =>
      obtain ⟨spec, hs, _⟩ := (Option.any_eq_true _ _).mp ht
      exact absurd hr (ne_reducer_of_callee? hs)
  | @spec _ _ _ callee _ spec _ _ _ _ _ _ hs _ _ _ _ ih =>
    cases depth with
    | zero => simp [Expr.isTruth] at ht
    | succ depth =>
      obtain ⟨spec', hs', hbody⟩ := (Option.any_eq_true _ _).mp ht
      cases hs.symm.trans hs'
      exact ih hbody

/-- Where operands that are conditions have no room, they are truth values, which are scalars. -/
theorem generates_operand {o : Expr NodeId} (h : Traces schema table root o (some term) js)
    (hgen : Generates schema a (.ofTy ty) term term.render)
    (htruth : ty = .boolean → o.isTruth schema schema.specs.length = true) :
    Generates schema a .scalar term term.render := by
  by_cases hty : ty = .boolean
  · obtain ⟨value, rfl⟩ := h.eq_boolean_of_isTruth (htruth hty) _ rfl
    exact .truth .scalar value
  · rwa [Symbol.ofTy_ne hty] at hgen

/-- What a typed expression comes to is a predicate if its type is boolean, and otherwise a
scalar. -/
theorem Traces.generates (h : Traces schema table root e outcome js)
    (hspecs : ∀ spec ∈ schema.specs, spec.body.typeOf schema = .ok .boolean)
    (hnodes : ∀ k, e.Reachable schema k → k.NodeWellFormed ∧ a.permits schema k = true)
    (hroot : RowsOf schema table root) (hty : e.typeOf schema = .ok ty) :
    ∀ term ∈ outcome, Generates schema a (.ofTy ty) term term.render := by
  induction h generalizing ty with
  | @constant _ _ e term ht =>
    rintro _ ⟨⟩
    cases e with
    | null => cases ht; cases hty; exact .null
    | boolean _ value => cases ht; cases hty; exact .truth _ value
    | number label value =>
      cases ht
      cases hty
      have hpermits := (hnodes _ (Or.inl (Expr.self_mem_nodes _))).2
      exact generates_number (Bool.or_eq_true_iff.mp hpermits)
    | string _ value => cases ht; cases hty; exact .string value
    | _ => cases ht
  | fails | operand | argument => simp
  | @reference _ _ path t _ _ label ht hw =>
    have hlex : path.Lexical :=
      Reference.WellFormed.lexical (hnodes _ (Or.inl (Expr.self_mem_nodes _))).1
    rcases Typing.referenceType_eq_ok hty with ⟨t', ht', hmember⟩ | ⟨hnone, _⟩
    · cases ht.symm.trans ht'
      exact hw.generates hmember (hroot.start hlex ht)
        fun member hm => hlex.2 member (List.mem_of_mem_tail hm)
    · cases ht.symm.trans hnone
  | @operands _ _ e left right f l outcome _ _ hf ho htl htr hl hr =>
    intro term hterm
    obtain ⟨r, rfl, rfl⟩ := Option.map_eq_some_iff.mp hterm
    have hsub : ∀ o ∈ [left, right], ∀ k, o.Reachable schema k →
        k.NodeWellFormed ∧ a.permits schema k = true := by
      intro o hmem k hk
      exact hnodes k (hk.of_subset (Expr.mem_nodes_operand (ho ▸ hmem)))
    have hl' : ∀ {x}, left.typeOf schema = .ok x → Generates schema a (.ofTy x) l l.render :=
      fun hx => hl (hsub left (by simp)) hroot hx l rfl
    have hr' : ∀ {y}, right.typeOf schema = .ok y → Generates schema a (.ofTy y) r r.render :=
      fun hy => hr (hsub right (by simp)) hroot hy r rfl
    cases e with
    | conjunction =>
      cases hf
      cases ho
      obtain ⟨hlt, hrt, rfl⟩ := Expr.typeOf_conjunction hty
      exact .conjunction (hl' hlt) (hr' hrt)
    | disjunction =>
      cases hf
      cases ho
      obtain ⟨hlt, hrt, rfl⟩ := Expr.typeOf_disjunction hty
      exact .disjunction (hl' hlt) (hr' hrt)
    | binary label op =>
      cases hf
      cases ho
      obtain ⟨x, y, hx, hy, hop⟩ := Expr.typeOf_operands hty
      obtain ⟨hwords, hpermits⟩ := hnodes _ (Or.inl (Expr.self_mem_nodes _))
      rcases Typing.binaryType_cases hop with ⟨ha, rfl, rfl, rfl⟩ | ⟨ha, rfl, heq⟩
      · exact .arithmetic op ha (hl' hx) (hr' hy)
      · have hcomp := Operator.isComparison_of hwords ha
        by_cases hboolean : x = .boolean ∨ y = .boolean
        · rcases Leeway.permits_binary hpermits with hroom | htruth
          · exact .equality hroom op (heq hboolean) (hl' hx) (hr' hy)
          · apply Generates.comparison op hcomp
            · exact generates_operand htl (hl' hx) fun h => htruth left (by simp) (h ▸ hx)
            · exact generates_operand htr (hr' hy) fun h => htruth right (by simp) (h ▸ hy)
        · rw [not_or] at hboolean
          apply Generates.comparison op hcomp
          · exact generates_operand htl (hl' hx) fun h => absurd h hboolean.1
          · exact generates_operand htr (hr' hy) fun h => absurd h hboolean.2
    | _ => cases hf
  | negation label _ ih =>
    intro term hterm
    obtain ⟨x, rfl, rfl⟩ := Option.map_eq_some_iff.mp hterm
    obtain ⟨hct, rfl⟩ := Expr.typeOf_negation hty
    refine .negation (ih ?_ hroot hct x rfl)
    exact fun k hk => hnodes k (hk.of_subset (Expr.mem_nodes_operand (List.mem_singleton_self _)))
  | reducer root label hr hresolve =>
    rintro _ ⟨⟩
    obtain ⟨rfl, _⟩ := Expr.typeOf_call hty
    exact .test _ (Or.inr (isMarker_reducer hresolve hroot _ _))
  | @spec _ _ row _ path spec t _ _ _ label label' hs hpath ht hw _ ih =>
    obtain ⟨rfl, _⟩ := Expr.typeOf_call hty
    have hlex : path.Lexical := Reference.WellFormed.lexical
      (hnodes (.reference label' path) (Or.inl (by simp [Expr.nodes, Expr.nodesAll]))).1
    refine ih (fun k hk => hnodes k (hk.of_body hs)) ?_ (hspecs _ (Schema.mem_specs_of_callee? hs))
    -- the argument is typed, so its name leads to rows of the table of the spec
    obtain ⟨t', u, ht', hfollow, hu⟩ := Typing.follows_of_referenceType hpath
    cases ht.symm.trans ht'
    obtain rfl := Term.row.inj (hw.eq_row hfollow)
    exact Or.inr ⟨u, (hroot.start hlex ht).follows
      (fun member hm => hlex.2 member (List.mem_of_mem_tail hm)) hfollow, hu⟩

/-- The condition of a reducer is its predicate, negated if the reducer looks for the others. -/
theorem isCondition_cte {k : Expr NodeId} {c : Cte} (h : SetsUp schema table k c)
    (hshaped : k.Shaped schema) (hbodies : ∀ spec ∈ schema.specs, spec.body.Shaped schema)
    (hspecs : ∀ spec ∈ schema.specs, spec.body.typeOf schema = .ok .boolean)
    (hnodes : ∀ k', k.Reachable schema k' → k'.NodeWellFormed ∧ a.permits schema k' = true)
    (hty : k.typeOf schema = .ok ty) :
    IsCondition schema a c.body.condition c.body.condition.render := by
  obtain @⟨label, callee, reducer, child, predicate, r, condition, nested, hr, _, hrun⟩ := h
  have hsub := @Expr.mem_nodes_argument _ label callee [child, predicate] predicate (by simp)
  obtain ⟨b, hb⟩ := Expr.typeOf_of_mem hty predicate (hsub _ (Expr.self_mem_nodes _))
  have hends := ends_of_run hbodies (hshaped.of_subset hsub) hrun
  obtain ⟨js, htraces, _⟩ := traces_compile hends hrun
  have hgen : Generates schema a (.ofTy b) condition condition.render :=
    htraces.generates hspecs (fun k' hk => hnodes k' (hk.of_subset hsub)) (Or.inl rfl) hb _ rfl
  have hpermits := Leeway.permits_reducer (hnodes _ (Or.inl (Expr.self_mem_nodes _))).2 hr
  simp only [Reduction.cte]
  by_cases hboolean : b = .boolean
  · subst hboolean
    left
    cases reducer.inverts with
    | true => exact .negation hgen
    | false => exact hgen
  · rw [Symbol.ofTy_ne hboolean] at hgen
    have hroom : a.scalarConditions = true := by
      apply hpermits.resolve_left
      intro hpredicate
      exact hboolean (Except.ok.inj (hb.symm.trans hpredicate))
    refine Or.inr ⟨hroom, condition, condition.render, hgen, ?_⟩
    cases reducer.inverts with
    | true => exact Or.inr ⟨rfl, rfl⟩
    | false => exact Or.inl ⟨rfl, rfl⟩

section looks

theorem Leads.notMem_blank {name : String} {t : Table} (h : Leads schema name t) :
    ' ' ∉ name.toList := by
  obtain ⟨path, _, hlex, _, _, rfl⟩ := h
  exact hlex.notMem_render (by decide) (by decide)

def looksScalar (cs : List Char) : Bool :=
  (cs.head? = some '[' && !cs.contains ' ') || cs.head? = some '\'' ||
    cs.head? = some '(' || (cs ≠ [] && cs.all fun c => c.isDigit || c = '-' || c = '.') ||
    cs ∈ ["NULL".toList, "TRUE".toList, "FALSE".toList]

def isDivided (word : String) (looks : List Char → Bool) (cs : List Char) : Bool :=
  (List.range cs.length).any fun n => looks (cs.take n) &&
    word.toList.isPrefixOf (cs.drop n) && looks (cs.drop (n + word.length))

def looksCompared (cs : List Char) : Bool :=
  Operator.all.any fun op => op.isComparison && isDivided (" " ++ op.render ++ " ") looksScalar cs

def looksPredicate (cs : List Char) : Bool :=
  cs.head? = some '[' || cs ∈ ["TRUE".toList, "FALSE".toList] || "NOT(".toList.isPrefixOf cs ||
    (cs.head? = some '(' && (isDivided " AND " (fun _ => true) cs.tail.dropLast ||
      isDivided " OR " (fun _ => true) cs.tail.dropLast || looksCompared cs.tail.dropLast))

def Symbol.looks : Symbol → List Char → Bool
  | .scalar => looksScalar
  | .predicate => looksPredicate

theorem looksScalar_decimal {text : String} (h : IsDecimal text) :
    looksScalar text.toList = true := by
  obtain ⟨negative, whole, fraction, hne, hdigits, rfl⟩ := h
  rw [List.all_append, Bool.and_eq_true, List.all_eq_true, List.all_eq_true] at hdigits
  have hchars : ∀ c ∈ (if negative then ['-'] else []) ++
      (whole ++ if fraction = [] then [] else '.' :: fraction),
      c.isDigit = true ∨ c = '-' ∨ c = '.' := by
    intro c hc
    rcases List.mem_append.mp hc with hsign | hc
    · by_cases hn : negative = true
      · simp_all
      · simp_all
    · rcases List.mem_append.mp hc with hwhole | hc
      · exact Or.inl (hdigits.1 c hwhole)
      · by_cases hf : fraction = []
        · simp_all
        · rw [if_neg hf, List.mem_cons] at hc
          rcases hc with rfl | hc
          · exact Or.inr (Or.inr rfl)
          · exact Or.inl (hdigits.2 c hc)
  simp only [looksScalar, String.toList_ofList, Bool.or_eq_true, Bool.and_eq_true]
  refine Or.inl (Or.inr ⟨by simp [hne], ?_⟩)
  rw [List.all_eq_true]
  intro c hc
  simpa [or_assoc] using hchars c hc

theorem isDivided_of {l r word : String} {looks : List Char → Bool} (hw : word.toList ≠ [])
    (hl : looks l.toList = true) (hr : looks r.toList = true) :
    isDivided word looks (l ++ word ++ r).toList = true := by
  have htext : (l ++ word ++ r).toList = l.toList ++ (word.toList ++ r.toList) := by
    simp
  have hlength : l.toList.length < (l.toList ++ (word.toList ++ r.toList)).length := by
    have hpos := List.length_pos_of_ne_nil hw
    simp only [List.length_append]
    omega
  have hrest : (l.toList ++ (word.toList ++ r.toList)).drop (l.toList.length + word.length) =
      r.toList := by
    rw [← List.drop_drop, List.drop_left, ← String.length_toList, List.drop_left]
  rw [htext]
  refine List.any_eq_true.mpr ⟨l.toList.length, List.mem_range.mpr hlength, ?_⟩
  rw [List.take_left, hl, List.drop_left, hrest, hr]
  simp

theorem looksPredicate_parens {s : String}
    (h : isDivided " AND " (fun _ => true) s.toList = true ∨
      isDivided " OR " (fun _ => true) s.toList = true ∨ looksCompared s.toList = true) :
    looksPredicate ("(" ++ s ++ ")").toList = true := by
  have htext : ("(" ++ s ++ ")").toList = '(' :: (s.toList ++ [')']) := by
    simp
  rw [htext]
  simp only [looksPredicate, List.tail_cons, List.dropLast_concat, Bool.or_eq_true,
    Bool.and_eq_true]
  refine Or.inr ⟨rfl, ?_⟩
  rwa [or_assoc]

theorem looksCompared_of {l r : String} {op : Operator} (hop : op.isComparison = true)
    (hl : looksScalar l.toList = true) (hr : looksScalar r.toList = true) :
    looksCompared (l ++ (" " ++ op.render ++ " ") ++ r).toList = true := by
  refine List.any_eq_true.mpr ⟨op, by cases op <;> decide, ?_⟩
  rw [hop, isDivided_of (by simp) hl hr]
  rfl

theorem looksScalar_bracket {name rest : String} (hname : ' ' ∉ name.toList)
    (hrest : ' ' ∉ rest.toList) : looksScalar (bracket name ++ rest).toList = true := by
  simp [looksScalar, bracket, hname, hrest]

/-- Without room, what a symbol generates looks like it. -/
theorem Generates.looks {symbol : Symbol} {text : String}
    (h : Generates schema .none symbol term text) : symbol.looks text.toList = true := by
  induction h with
  | @conjunction _ _ l r =>
    have htext : "(" ++ l ++ " AND " ++ r ++ ")" = "(" ++ (l ++ " AND " ++ r) ++ ")" := by
      simp only [String.append_assoc]
    rw [htext]
    exact looksPredicate_parens (Or.inl (isDivided_of (by decide) rfl rfl))
  | @disjunction _ _ l r =>
    have htext : "(" ++ l ++ " OR " ++ r ++ ")" = "(" ++ (l ++ " OR " ++ r) ++ ")" := by
      simp only [String.append_assoc]
    rw [htext]
    exact looksPredicate_parens (Or.inr (Or.inl (isDivided_of (by decide) rfl rfl)))
  | negation => simp [Symbol.looks, looksPredicate]
  | @comparison _ _ l r op hop _ _ hl hr =>
    have htext : "(" ++ l ++ " " ++ op.render ++ " " ++ r ++ ")" =
        "(" ++ (l ++ (" " ++ op.render ++ " ") ++ r) ++ ")" := by
      simp only [String.append_assoc]
    rw [htext]
    exact looksPredicate_parens (Or.inr (Or.inr (looksCompared_of hop hl hr)))
  | test => simp [Symbol.looks, looksPredicate, Column.render, bracket]
  | truth symbol value => cases symbol <;> cases value <;> decide
  | decimal h _ => exact looksScalar_decimal h
  | string value => simp [Symbol.looks, looksScalar, Text.quote]
  | null => decide
  | @column c h =>
    obtain ⟨t, hlead, f, hf, hname, hid⟩ := h
    have hrest : ' ' ∉ ("." ++ bracket c.name).toList := by
      simp [bracket, hid.notMem (c := ' ') (by decide)]
    have htext : c.render = bracket c.qualifier ++ ("." ++ bracket c.name) := by
      rw [Column.render, String.append_assoc]
    rw [htext]
    exact looksScalar_bracket hlead.notMem_blank hrest
  | @row name _ h =>
    have hlooks := @looksScalar_bracket name "" h.notMem_blank (by simp)
    rwa [String.append_empty] at hlooks
  | arithmetic => simp [Symbol.looks, looksScalar]
  | infinite ha => cases ha
  | equality ha => cases ha

end looks

end Sql

open Sql

/-- A request works on the characters of its source. -/
theorem Schema.compileSource_of_tokens {s : Schema} {table : String} {cs : List Char}
    {tokens : List Token} {e : Expr NodeId} (hs : (s.table? table).isSome = true)
    (ht : (Lexer.mk cs 0).tokens = .ok tokens) (he : (parse s.counter tokens).result = .ok e) :
    (s.compileSource table (String.ofList cs)).1 =
      selectExpr { s with counter := (parse s.counter tokens).counter } table e := by
  have htokens : tokenize (String.ofList cs) = .ok tokens := by
    rw [tokenize, Lexer.ofSource, String.toList_ofList, ht]
  have hread : s.readExpr (String.ofList cs) =
      (.ok e, { s with counter := (parse s.counter tokens).counter }) := by
    refine readExpr_ok ?_
    simp only [parseSource, htokens, he]
    rfl
  obtain ⟨t, ht⟩ := Option.isSome_iff_exists.mp hs
  simp only [compileSource, readOver_eq, ht, hread]
  rfl

/-- The condition of a statement and those of its common table expressions are generated by the
grammar with the room that some node asks for, and none where no node does. Without predicates as
operands, no operand of a comparison is a comparison that has no parentheses. -/
theorem conditions_generated {schema : Schema} {n m : Nat} {table : String} {e : Expr NodeId}
    {stmt : Statement} (hb : schema.Built) (hc : schema.check = .ok ())
    (hy : schema.Yields n m table e stmt) (a : Leeway)
    (hroom : ∀ k, e.Reachable schema k → a.permits schema k = true) :
    Generates schema a .predicate stmt.body.condition stmt.body.condition.render ∧
      (∀ c ∈ stmt.ctes, IsCondition schema a c.body.condition c.body.condition.render) ∧
      (a.predicateOperands = false → stmt.body.condition.comparesTest = false ∧
        ∀ c ∈ stmt.ctes, c.body.condition.comparesTest = false) := by
  obtain ⟨haccepted, hselect⟩ := hy.accepted hb hc
  have hbodies := Schema.shaped_spec hb hc
  have hspecs : ∀ spec ∈ schema.specs, spec.body.typeOf schema = .ok .boolean :=
    fun spec hs => (Schema.accepted_spec hb hc spec hs).typed
  have hnodes : ∀ k, e.Reachable schema k → k.NodeWellFormed ∧ a.permits schema k = true := by
    intro k hk
    refine ⟨?_, hroom k hk⟩
    rcases hk with hk | ⟨spec, hs, hk⟩
    · exact haccepted.wellFormed k hk
    · have hmem := (Schema.spec?_eq_some hs.spec?).1
      exact (Schema.accepted_spec hb hc spec hmem).wellFormed k hk
  have hcondition : Generates schema a .predicate stmt.body.condition
      stmt.body.condition.render := by
    obtain ⟨condition, d, hrun, rfl⟩ := select_eq_ok hselect
    obtain ⟨js, htraces, _⟩ := traces_compile (ends_of_run hbodies haccepted.shaped hrun) hrun
    exact htraces.generates hspecs hnodes (Or.inl rfl) haccepted.typed _ rfl
  have hctes : ∀ c ∈ stmt.ctes,
      IsCondition schema a c.body.condition c.body.condition.render := by
    intro c hmem
    obtain ⟨k, table', hv, hset⟩ := (hy.gathers hb hc).1.owned c hmem
    have hshaped := (hv.shaped hb hc haccepted).2
    obtain ⟨ty, hty⟩ := hv.forall_nodes
      (fun spec hs => Expr.typeOf_of_mem (hspecs spec hs)) (Expr.typeOf_of_mem haccepted.typed) k
      (Expr.self_mem_nodes k)
    exact isCondition_cte hset hshaped hbodies hspecs
      (fun k' hk => hnodes k' (hv.lift_reachable hk)) hty
  refine ⟨hcondition, hctes, fun ha => ⟨hcondition.comparesTest_eq_false ha, ?_⟩⟩
  exact fun c hmem => (hctes c hmem).comparesTest_eq_false ha

/-- The body of the called spec and the predicates of the reducers ask for no room. -/
theorem conditions_generated_sales : ∃ n m e stmt, sales.Built ∧ sales.check = .ok () ∧
    sales.Yields n m "Account" e stmt ∧
    (∀ k, e.Reachable sales k → Leeway.none.permits sales k = true) ∧
    stmt.body.condition.render = "([Account.Owner.AnnotatedUser4].[AnyAccount4] = 1 AND " ++
      "NOT(((([Account].[Id] * 2) >= -1.5) OR [AnnotatedAccount16].[AnyNotContact16] != 1)))" ∧
    Generates sales .none .predicate stmt.body.condition stmt.body.condition.render ∧
    (∀ c ∈ stmt.ctes, IsCondition sales .none c.body.condition c.body.condition.render) ∧
    stmt.body.condition.comparesTest = false ∧
    ∀ c ∈ stmt.ctes, c.body.condition.comparesTest = false := by
  have hparse : (parseSource sales.counter ("Busy(Account.Owner) and " ++
      "not (Account.Id * 2 >= -1.5 or all(Contact, Contact.Id != null))")).1.toOption.any
        (fun e => e.nodes.all (Leeway.none.permits sales)) = true := by
    decide +kernel
  obtain ⟨e, c, hp, hpermits⟩ := parseSource_of_any hparse
  have hrun : (sales.compileSource "Account" ("Busy(Account.Owner) and " ++
      "not (Account.Id * 2 >= -1.5 or all(Contact, Contact.Id != null))")).1.toOption.any
        (fun stmt => stmt.body.condition.render =
          "([Account.Owner.AnnotatedUser4].[AnyAccount4] = 1 AND NOT(((([Account].[Id] * 2) " ++
            ">= -1.5) OR [AnnotatedAccount16].[AnyNotContact16] != 1)))") = true := by
    decide +kernel
  obtain ⟨stmt, hstmt, htext⟩ := ok_of_any hrun
  have hbodies : ∀ spec ∈ sales.specs, ∀ k ∈ spec.body.nodes,
      Leeway.none.permits sales k = true := by
    have hall : sales.specs.all (fun spec => spec.body.nodes.all (Leeway.none.permits sales)) =
        true := by decide +kernel
    intro spec hs
    exact List.all_eq_true.mp (List.all_eq_true.mp hall spec hs)
  have hroom : ∀ k, e.Reachable sales k → Leeway.none.permits sales k = true := by
    rintro k (hk | ⟨spec, hs, hk⟩)
    · exact List.all_eq_true.mp hpermits k hk
    · exact hbodies spec (Schema.spec?_eq_some hs.spec?).1 k hk
  have hy := Schema.Yields.source (n := 0) hp hstmt
  obtain ⟨hcondition, hctes, hcompares⟩ :=
    conditions_generated sales_built sales_check hy .none hroom
  exact ⟨_, _, e, stmt, sales_built, sales_check, hy, hroom, of_decide_eq_true htext, hcondition,
    hctes, hcompares rfl⟩

/-- None of the three exceptions is ruled out by the checks. The texts are those of no term that the
grammar generates, whichever way they are read. -/
theorem conditions_beyond_grammar : sales.Built ∧ sales.check = .ok () ∧
    (∃ stmt, (sales.compileSource "Contact" "Contact.Open = true").1 = .ok stmt ∧
      stmt.body.condition.render = "([Contact].[Open] = 1 = TRUE)" ∧
      stmt.body.condition.comparesTest = true ∧
      ∀ term, ¬ Generates sales .none .predicate term stmt.body.condition.render) ∧
    (∃ stmt, (sales.compileSource "Contact" "Contact.Open = Contact.Open").1 = .ok stmt ∧
      stmt.body.condition.render = "([Contact].[Open] = 1 = [Contact].[Open] = 1)" ∧
      stmt.body.condition.comparesTest = true ∧
      ∀ term, ¬ Generates sales .none .predicate term stmt.body.condition.render) ∧
    (∃ stmt, (sales.compileSource "Account" "any(Contact, 1)").1 = .ok stmt ∧
      stmt.ctes.map (·.body.condition.render) = ["1"] ∧
      ∃ c ∈ stmt.ctes, ∀ term, ¬ IsCondition sales .none term c.body.condition.render) ∧
    ∃ stmt, (sales.compileSource "Contact"
        (String.ofList ("Contact.Id < ".toList ++ List.replicate 310 '9'))).1 = .ok stmt ∧
      stmt.body.condition.render = "([Contact].[Id] < inf)" ∧
      ∀ term, ¬ Generates sales .none .predicate term stmt.body.condition.render := by
  have hequal : (sales.compileSource "Contact" "Contact.Open = true").1.toOption.any
      (fun stmt => stmt.body.condition.render = "([Contact].[Open] = 1 = TRUE)" ∧
        stmt.body.condition.comparesTest = true) = true := by
    decide +kernel
  have hself : (sales.compileSource "Contact" "Contact.Open = Contact.Open").1.toOption.any
      (fun stmt => stmt.body.condition.render = "([Contact].[Open] = 1 = [Contact].[Open] = 1)" ∧
        stmt.body.condition.comparesTest = true) = true := by
    decide +kernel
  have hscalar : (sales.compileSource "Account" "any(Contact, 1)").1.toOption.any
      (fun stmt => stmt.ctes.map (·.body.condition.render) = ["1"]) = true := by
    decide +kernel
  -- over the characters: there are too many digits to take them from a text by evaluation
  have hinfinite :
      (Lexer.mk ("Contact.Id < ".toList ++ List.replicate 310 '9') 0).tokens.toOption.any
        (fun tokens => (parse sales.counter tokens).result.toOption.any fun e =>
          (Schema.selectExpr { sales with counter := (parse sales.counter tokens).counter }
            "Contact" e).toOption.any fun stmt =>
              stmt.body.condition.render = "([Contact].[Id] < inf)") = true := by
    decide +kernel
  refine ⟨sales_built, sales_check, ?_, ?_, ?_, ?_⟩
  · obtain ⟨stmt, hstmt, hboth⟩ := ok_of_any hequal
    obtain ⟨htext, hcompares⟩ := of_decide_eq_true hboth
    refine ⟨stmt, hstmt, htext, hcompares, fun term h => ?_⟩
    rw [htext] at h
    exact absurd h.looks (by decide +kernel)
  · obtain ⟨stmt, hstmt, hboth⟩ := ok_of_any hself
    obtain ⟨htext, hcompares⟩ := of_decide_eq_true hboth
    refine ⟨stmt, hstmt, htext, hcompares, fun term h => ?_⟩
    rw [htext] at h
    exact absurd h.looks (by decide +kernel)
  · obtain ⟨stmt, hstmt, htexts⟩ := ok_of_any hscalar
    rw [decide_eq_true_eq] at htexts
    obtain ⟨c, hc, htext⟩ := List.mem_map.mp (htexts ▸ List.mem_singleton_self "1")
    refine ⟨stmt, hstmt, htexts, c, hc, fun term => ?_⟩
    rw [htext]
    rintro (h | ⟨hroom, _⟩)
    · exact absurd h.looks (by decide)
    · cases hroom
  · obtain ⟨tokens, ht, hparse⟩ := ok_of_any hinfinite
    obtain ⟨e, he, hselect⟩ := ok_of_any hparse
    obtain ⟨stmt, hstmt, htext⟩ := ok_of_any hselect
    rw [decide_eq_true_eq] at htext
    refine ⟨stmt, (Schema.compileSource_of_tokens (by decide +kernel) ht he).trans hstmt, htext,
      fun term h => ?_⟩
    rw [htext] at h
    exact absurd h.looks (by decide +kernel)

end RowSpec
