import Mathlib.Data.List.Dedup
import Mathlib.Logic.Function.Basic
import RowSpec.Proofs.ReducerCalls

/-! The rows that a statement selects from a database, in three-valued logic: a missing value makes
a comparison unknown, a left join pads with missing values, and only what is true is kept. A reducer
marks the rows that it is meant to mark, up to the padding of a row without children. The test of
the marker is true for `any` where there is a mark; for the others it is false where there is one
and unknown where there is none, so `none` and `all` select nothing. -/
namespace RowSpec.Sql

structure Dialect (V : Type) where
  number : Double → V
  text : String → V
  truth : Bool → V
  /-- How a value is taken where a condition is due. -/
  isTrue : V → Bool
  isTrue_truth : ∀ b, isTrue (truth b) = b
  /-- All operators but the tests for equality. -/
  apply : Operator → V → V → Option V
  /-- What the name of a row stands for in the place of a value. -/
  bare : (String → Option V) → Option V

abbrev Row (V : Type) := String → Option V

def Row.nulls {V : Type} : Row V := fun _ => none

abbrev Database (V : Type) := String → List (Row V)

abbrev Scope (V : Type) := String → Row V

def Scope.value {V : Type} (s : Scope V) (c : Column) : Option V := s c.qualifier c.name

/-- A conjunction with something false is false, whatever else is unknown. -/
def conj : Option Bool → Option Bool → Option Bool
  | some false, _ | _, some false => some false
  | some true, some true => some true
  | _, _ => none

def disj : Option Bool → Option Bool → Option Bool
  | some true, _ | _, some true => some true
  | some false, some false => some false
  | _, _ => none

variable {V : Type} [DecidableEq V]

namespace Dialect

variable (D : Dialect V)

def one : V := D.number (.ofDecimal false 1 0)

def compare : Operator → V → V → Option V
  | .eq, a, b => some (D.truth (a = b))
  | .ne, a, b => some (D.truth (a ≠ b))
  | op, a, b => D.apply op a b

def eval (s : Scope V) : Term → Option V
  | .null => none
  | .boolean value => some (D.truth value)
  | .number value => some (D.number value)
  | .string value => some (D.text value)
  | .column c => s.value c
  | .test c .isOne => (s.value c).map fun v => D.truth (v = D.one)
  | .test c .isNotOne => (s.value c).map fun v => D.truth (v ≠ D.one)
  | .test c .isPresent => some (D.truth (s.value c).isSome)
  | .row name => D.bare (s name)
  | .binary op left right => (eval s left).bind fun a => (eval s right).bind fun b =>
    D.compare op a b
  | .conjunction left right =>
    (conj ((eval s left).map D.isTrue) ((eval s right).map D.isTrue)).map D.truth
  | .disjunction left right =>
    (disj ((eval s left).map D.isTrue) ((eval s right).map D.isTrue)).map D.truth
  | .negation child => (eval s child).map fun v => D.truth (!D.isTrue v)

def decides (s : Scope V) (t : Term) : Option Bool := (D.eval s t).map D.isTrue

def decidesOn (name : String) (row : Row V) (t : Term) : Option Bool :=
  D.decides (Function.update (fun _ => .nulls) name row) t

end Dialect

def Join.Meets (j : Join) (s : Scope V) : Prop :=
  (s.value j.right).isSome = true ∧ s.value j.left = s.value j.right

instance (j : Join) (s : Scope V) : Decidable (j.Meets s) :=
  inferInstanceAs (Decidable (_ ∧ _))

/-- A scope with each of the rows that a join finds for it; a left join that finds none adds a row
of missing values. -/
def Join.extend (db : Database V) (j : Join) (s : Scope V) : List (Scope V) :=
  let found := ((db j.table).map (Function.update s j.key)).filter (j.Meets ·)
  if j.kind = .left ∧ found.isEmpty then [Function.update s j.key .nulls] else found

def Selection.scopes (D : Dialect V) (db : Database V) (q : Selection) : List (Scope V) :=
  let joined := (db q.table).flatMap fun row =>
    q.joins.foldl (fun scopes j => scopes.flatMap (j.extend db))
      [Function.update (fun _ => .nulls) q.table row]
  joined.filter (D.decides · q.condition = some true)

def Cte.ids (D : Dialect V) (db : Database V) (c : Cte) : List (Option V) :=
  let ids := (c.body.scopes D db).map (·.value c.id)
  if c.distinct then ids.dedup else ids

def Cte.row (D : Dialect V) (c : Cte) (id : Option V) : Row V :=
  Function.update (Function.update Row.nulls c.marker (some D.one)) c.id.name id

def Cte.define (D : Dialect V) (db : Database V) (c : Cte) : Database V :=
  Function.update db c.name ((c.ids D db).map (c.row D))

def Statement.rows (D : Dialect V) (db : Database V) (stmt : Statement) : List (Row V) :=
  (stmt.body.scopes D (stmt.ctes.foldl (Cte.define D) db)).map (· stmt.body.table)

variable {D : Dialect V} {db : Database V}

/-- A term depends on the rows that it speaks of. -/
theorem eval_congr {s s' : Scope V} {t : Term} (h : ∀ name ∈ t.names, s name = s' name) :
    D.eval s t = D.eval s' t := by
  induction t with
  | null | boolean | number | string => rfl
  | column c =>
    have hc := h c.qualifier (List.mem_singleton_self _)
    simp only [Dialect.eval, Scope.value, hc]
  | test c t =>
    have hc := h c.qualifier (List.mem_singleton_self _)
    cases t <;> simp only [Dialect.eval, Scope.value, hc]
  | row name =>
    have hname := h name (List.mem_singleton_self _)
    simp only [Dialect.eval, hname]
  | binary op left right hl hr | conjunction left right hl hr | disjunction left right hl hr =>
    obtain ⟨hleft, hright⟩ := List.forall_mem_append.mp h
    simp only [Dialect.eval, hl hleft, hr hright]
  | negation child hc => simp only [Dialect.eval, hc h]

theorem decides_eq_decidesOn {s : Scope V} {name : String} {t : Term}
    (h : ∀ n ∈ t.names, n = name) : D.decides s t = D.decidesOn name (s name) t := by
  unfold Dialect.decidesOn Dialect.decides
  rw [eval_congr]
  intro n hn
  rw [h n hn, Function.update_self]

theorem decides_negation (s : Scope V) (t : Term) :
    D.decides s (.negation t) = (D.decides s t).map (!·) := by
  simp only [Dialect.decides, Dialect.eval, Option.map_map]
  congr 1
  funext v
  exact D.isTrue_truth _

/-- Where a left join leads from a scope: to the rows that it finds, or to the padding. -/
theorem mem_extend_left {j : Join} (hj : j.kind = .left) {s s' : Scope V} :
    s' ∈ j.extend db s ↔
      (∃ row ∈ db j.table, j.Meets (Function.update s j.key row) ∧
        s' = Function.update s j.key row) ∨
      (∀ row ∈ db j.table, ¬ j.Meets (Function.update s j.key row)) ∧
        s' = Function.update s j.key .nulls := by
  have hfound : ∀ s', s' ∈ ((db j.table).map (Function.update s j.key)).filter (j.Meets ·) ↔
      ∃ row ∈ db j.table, j.Meets (Function.update s j.key row) ∧
        s' = Function.update s j.key row := by
    intro s'
    rw [List.mem_filter, List.mem_map, decide_eq_true_eq]
    constructor
    · rintro ⟨⟨row, hrow, rfl⟩, hmeets⟩
      exact ⟨row, hrow, hmeets, rfl⟩
    · rintro ⟨row, hrow, hmeets, rfl⟩
      exact ⟨⟨row, hrow, rfl⟩, hmeets⟩
  by_cases hnone : ∀ row ∈ db j.table, ¬ j.Meets (Function.update s j.key row)
  · have hempty : ((db j.table).map (Function.update s j.key)).filter (j.Meets ·) = [] := by
      rw [List.eq_nil_iff_forall_not_mem]
      intro s' hs'
      obtain ⟨row, hrow, hmeets, _⟩ := (hfound s').mp hs'
      exact hnone row hrow hmeets
    have hextend : j.extend db s = [Function.update s j.key .nulls] := by
      simp only [Join.extend, hempty, hj, List.isEmpty_nil, and_self, if_true]
    rw [hextend, List.mem_singleton]
    constructor
    · intro hs'
      exact Or.inr ⟨hnone, hs'⟩
    · rintro (⟨row, hrow, hmeets, _⟩ | ⟨_, hs'⟩)
      · exact absurd hmeets (hnone row hrow)
      · exact hs'
  · have hextend : j.extend db s =
        ((db j.table).map (Function.update s j.key)).filter (j.Meets ·) := by
      obtain ⟨row, hrow⟩ := not_forall.mp hnone
      rw [Classical.not_imp, not_not] at hrow
      have hmem := (hfound _).mpr ⟨row, hrow.1, hrow.2, rfl⟩
      simp only [Join.extend, List.isEmpty_iff, List.ne_nil_of_mem hmem, and_false, if_false]
    rw [hextend, hfound]
    constructor
    · exact Or.inl
    · rintro (hs' | ⟨hnone', _⟩)
      · exact hs'
      · exact absurd hnone' hnone

theorem mem_scopes_single {table : String} {j : Join} {t : Term} {s : Scope V} :
    s ∈ Selection.scopes D db ⟨table, [j], t⟩ ↔
      (∃ row ∈ db table, s ∈ j.extend db (Function.update (fun _ => .nulls) table row)) ∧
        D.decides s t = some true := by
  simp only [Selection.scopes, List.foldl_cons, List.foldl_nil, List.flatMap_singleton,
    List.mem_filter, List.mem_flatMap, decide_eq_true_eq]

theorem mem_ids {c : Cte} {v : Option V} :
    v ∈ c.ids D db ↔ ∃ s ∈ c.body.scopes D db, s.value c.id = v := by
  have hmem : v ∈ c.ids D db ↔ v ∈ (c.body.scopes D db).map (·.value c.id) := by
    unfold Cte.ids
    cases c.distinct with
    | true => exact List.mem_dedup
    | false => exact Iff.rfl
  rw [hmem, List.mem_map]

section reducer

def Reduction.Links {V : Type} (r : Reduction) (x y : Row V) : Prop :=
  (x r.parent.id).isSome = true ∧ y r.link.id = x r.parent.id

/-- What the left join of the children finds for a row: its children, or, if it has none, a row of
missing values. -/
def Reduction.Finds {V : Type} (r : Reduction) (db : Database V) (x y : Row V) : Prop :=
  (y ∈ db r.child.name ∧ r.Links x y) ∨ (∀ y ∈ db r.child.name, ¬ r.Links x y) ∧ y = .nulls

/-- Something that is found for the row meets the condition, or fails it where that is looked
for. -/
def Reduction.Marks (r : Reduction) (D : Dialect V) (db : Database V) (reducer : Reducer)
    (condition : Term) (x : Row V) : Prop :=
  ∃ y, r.Finds db x y ∧ D.decidesOn r.child.name y condition = some (!reducer.inverts)

def Reduction.Holds (r : Reduction) (D : Dialect V) (db : Database V) (condition : Term)
    (x : Row V) : Reducer → Prop
  | .any => ∃ y ∈ db r.child.name, r.Links x y ∧
    D.decidesOn r.child.name y condition = some true
  | .none => ∀ y ∈ db r.child.name, r.Links x y →
    D.decidesOn r.child.name y condition ≠ some true
  | .all => ∀ y ∈ db r.child.name, r.Links x y →
    D.decidesOn r.child.name y condition = some true

variable {r : Reduction} {reducer : Reducer} {id : NodeId} {condition : Term} {x y : Row V}

theorem marks_congr {x' : Row V} (h : x r.parent.id = x' r.parent.id) :
    r.Marks D db reducer condition x ↔ r.Marks D db reducer condition x' := by
  simp only [Reduction.Marks, Reduction.Finds, Reduction.Links, h]

theorem decides_inverted {s : Scope V} (hreads : ∀ n ∈ condition.names, n = r.child.name) :
    D.decides s (if reducer.inverts then .negation condition else condition) = some true ↔
      D.decidesOn r.child.name (s r.child.name) condition = some (!reducer.inverts) := by
  cases reducer.inverts with
  | true =>
    rw [if_pos rfl, decides_negation, decides_eq_decidesOn hreads]
    cases D.decidesOn r.child.name (s r.child.name) condition with
    | none => simp
    | some b => cases b <;> simp
  | false =>
    rw [if_neg Bool.false_ne_true, decides_eq_decidesOn hreads]
    rfl

/-- The children in the common table expression of a reducer. -/
theorem mem_extend_child (hother : r.child.name ≠ r.parent.name) {s : Scope V}
    (hs : s r.parent.name = x) {s' : Scope V} :
    s' ∈ Join.extend db ⟨.left, r.child.name, none, ⟨r.child.name, r.link.id⟩,
        ⟨r.parent.name, r.parent.id⟩⟩ s ↔
      ∃ y, r.Finds db x y ∧ s' = Function.update s r.child.name y := by
  have hmeets : ∀ y, Join.Meets ⟨.left, r.child.name, none, ⟨r.child.name, r.link.id⟩,
      ⟨r.parent.name, r.parent.id⟩⟩ (Function.update s r.child.name y) ↔ r.Links x y := by
    intro y
    simp only [Join.Meets, Scope.value, Function.update_self, Function.update_of_ne hother.symm,
      hs, Reduction.Links]
  rw [mem_extend_left rfl]
  simp only [Join.key, Option.getD_none, hmeets]
  constructor
  · rintro (⟨y, hy, hlink, rfl⟩ | ⟨hnone, rfl⟩)
    · exact ⟨y, Or.inl ⟨hy, hlink⟩, rfl⟩
    · exact ⟨.nulls, Or.inr ⟨hnone, rfl⟩, rfl⟩
  · rintro ⟨y, ⟨hy, hlink⟩ | ⟨hnone, rfl⟩, rfl⟩
    · exact Or.inl ⟨y, hy, hlink, rfl⟩
    · exact Or.inr ⟨hnone, rfl⟩

/-- The ids in the common table expression of a reducer are those of the rows that it marks. -/
theorem mem_ids_cte (hother : r.child.name ≠ r.parent.name)
    (hreads : ∀ n ∈ condition.names, n = r.child.name) {v : Option V} :
    v ∈ (r.cte reducer id [] condition).ids D db ↔
      ∃ x ∈ db r.parent.name, x r.parent.id = v ∧ r.Marks D db reducer condition x := by
  have hrow : ∀ x : Row V, Function.update (fun _ => Row.nulls) r.parent.name x r.parent.name = x :=
    fun x => Function.update_self ..
  rw [mem_ids]
  constructor
  · rintro ⟨s, hs, rfl⟩
    obtain ⟨⟨x, hx, hs⟩, hdecides⟩ := mem_scopes_single.mp hs
    obtain ⟨y, hy, rfl⟩ := (mem_extend_child hother (hrow x)).mp hs
    rw [decides_inverted hreads, Function.update_self] at hdecides
    refine ⟨x, hx, ?_, y, hy, hdecides⟩
    simp only [Scope.value, Reduction.cte, Function.update_of_ne hother.symm, hrow]
  · rintro ⟨x, hx, rfl, y, hy, hdecides⟩
    refine ⟨_, mem_scopes_single.mpr ⟨⟨x, hx, (mem_extend_child hother (hrow x)).mpr
      ⟨y, hy, rfl⟩⟩, ?_⟩, ?_⟩
    · rw [decides_inverted hreads, Function.update_self]
      exact hdecides
    · simp only [Scope.value, Reduction.cte, Function.update_of_ne hother.symm, hrow]

theorem cteName_ne (r : Reduction) (id : NodeId) : r.cteName id ≠ r.parent.name := by
  intro h
  have hlength := congrArg String.length h
  simp only [Reduction.cteName, String.length_append] at hlength
  have hstem : "Annotated".length = 9 := rfl
  omega

theorem key_join_ne (r : Reduction) (id : NodeId) (root : String) :
    (r.join id root).key ≠ root := by
  unfold Reduction.join Join.key
  by_cases hroot : root = r.parent.name
  · subst hroot
    simpa using cteName_ne r id
  · intro h
    have hlength := congrArg String.length h
    simp only [hroot, if_false, Option.getD_some, String.length_append] at hlength
    have hpoint : ".".length = 1 := rfl
    omega

/-- The test of a marker that is set. -/
theorem decides_marked {s : Scope V} {c : Column} (h : s.value c = some D.one) (wanted : Bool) :
    D.decides s (.test c (if wanted then .isOne else .isNotOne)) = some wanted := by
  cases wanted with
  | true => simp [Dialect.decides, Dialect.eval, h, D.isTrue_truth]
  | false => simp [Dialect.decides, Dialect.eval, h, D.isTrue_truth]

/-- A marker that is missing passes neither test. -/
theorem decides_unmarked {s : Scope V} {c : Column} (h : s.value c = none) (wanted : Bool) :
    D.decides s (.test c (if wanted then .isOne else .isNotOne)) = none := by
  cases wanted with
  | true => simp [Dialect.decides, Dialect.eval, h]
  | false => simp [Dialect.decides, Dialect.eval, h]

theorem wantsMarker_iff : reducer.wantsMarker = true ↔ reducer = .any := by
  cases reducer <;> decide

/-- The marks join the rows of the ids that they have been set for. -/
theorem mem_extend_mark {root : String} {s s' : Scope V} :
    s' ∈ (r.join id root).extend ((r.cte reducer id [] condition).define D db) s ↔
      ((s root r.parent.id).isSome = true ∧
          s root r.parent.id ∈ (r.cte reducer id [] condition).ids D db ∧
          s' = Function.update s (r.join id root).key
            ((r.cte reducer id [] condition).row D (s root r.parent.id))) ∨
        (¬ ((s root r.parent.id).isSome = true ∧
            s root r.parent.id ∈ (r.cte reducer id [] condition).ids D db) ∧
          s' = Function.update s (r.join id root).key .nulls) := by
  have hrows : (r.cte reducer id [] condition).define D db (r.join id root).table =
      ((r.cte reducer id [] condition).ids D db).map ((r.cte reducer id [] condition).row D) :=
    Function.update_self ..
  have hmeets : ∀ v, (r.join id root).Meets (Function.update s (r.join id root).key
      ((r.cte reducer id [] condition).row D v)) ↔
        (s root r.parent.id).isSome = true ∧ v = s root r.parent.id := by
    intro v
    have hleft : Scope.value (Function.update s (r.join id root).key
        ((r.cte reducer id [] condition).row D v)) (r.join id root).left = v := by
      change Function.update s (r.join id root).key _ (r.join id root).key r.parent.id = v
      rw [Function.update_self]
      exact Function.update_self ..
    have hright : Scope.value (Function.update s (r.join id root).key
        ((r.cte reducer id [] condition).row D v)) (r.join id root).right =
          s root r.parent.id := by
      change Function.update s (r.join id root).key _ root r.parent.id = _
      rw [Function.update_of_ne (key_join_ne r id root).symm]
    rw [Join.Meets, hleft, hright]
  rw [mem_extend_left rfl, hrows]
  simp only [List.mem_map, exists_exists_and_eq_and, forall_exists_index, and_imp,
    forall_apply_eq_imp_iff₂, hmeets]
  constructor
  · rintro (⟨v, hv, ⟨hsome, rfl⟩, hs'⟩ | ⟨hnone, hs'⟩)
    · exact Or.inl ⟨hsome, hv, hs'⟩
    · refine Or.inr ⟨?_, hs'⟩
      rintro ⟨hsome, hv⟩
      exact hnone _ hv ⟨hsome, rfl⟩
  · rintro (⟨hsome, hv, hs'⟩ | ⟨hnone, hs'⟩)
    · exact Or.inl ⟨_, hv, ⟨hsome, rfl⟩, hs'⟩
    · refine Or.inr ⟨?_, hs'⟩
      rintro v hv ⟨hsome, rfl⟩
      exact hnone ⟨hsome, hv⟩

/-- The test of the marker is true for `any` and a marked row only. -/
theorem passes_iff (hother : r.child.name ≠ r.parent.name)
    (hreads : ∀ n ∈ condition.names, n = r.child.name)
    (hmarker : r.marker reducer id ≠ r.parent.id) {root : String} {s : Scope V}
    (hx : s root ∈ db r.parent.name) :
    (∃ s' ∈ (r.join id root).extend ((r.cte reducer id [] condition).define D db) s,
        D.decides s' (.test ⟨(r.join id root).key, r.marker reducer id⟩
          (if reducer.wantsMarker then .isOne else .isNotOne)) = some true) ↔
      reducer = .any ∧ (s root r.parent.id).isSome = true ∧
        r.Marks D db reducer condition (s root) := by
  have hmarks : s root r.parent.id ∈ (r.cte reducer id [] condition).ids D db ↔
      r.Marks D db reducer condition (s root) := by
    rw [mem_ids_cte hother hreads]
    constructor
    · rintro ⟨x, _, hid, hx⟩
      exact (marks_congr hid).mp hx
    · intro h
      exact ⟨_, hx, rfl, h⟩
  have hset : ∀ v, Scope.value (Function.update s (r.join id root).key
      ((r.cte reducer id [] condition).row D v)) ⟨(r.join id root).key, r.marker reducer id⟩ =
        some D.one := by
    intro v
    rw [Scope.value, Function.update_self]
    exact (Function.update_of_ne hmarker ..).trans (Function.update_self ..)
  rw [← hmarks]
  constructor
  · rintro ⟨s', hs', hpasses⟩
    rcases mem_extend_mark.mp hs' with ⟨hsome, hv, rfl⟩ | ⟨_, rfl⟩
    · rw [decides_marked (hset _)] at hpasses
      exact ⟨wantsMarker_iff.mp (Option.some.inj hpasses), hsome, hv⟩
    · have hunset : Scope.value (Function.update s (r.join id root).key .nulls)
          ⟨(r.join id root).key, r.marker reducer id⟩ = none := by
        rw [Scope.value, Function.update_self]
        rfl
      rw [decides_unmarked hunset] at hpasses
      cases hpasses
  · rintro ⟨hany, hsome, hv⟩
    refine ⟨_, mem_extend_mark.mpr (Or.inl ⟨hsome, hv, rfl⟩), ?_⟩
    rw [decides_marked (hset _), wantsMarker_iff.mpr hany]

theorem root_of_mem_extend {root : String} {s s' : Scope V}
    (h : s' ∈ (r.join id root).extend db s) : s' root = s root := by
  rcases (mem_extend_left rfl).mp h with ⟨row, _, _, rfl⟩ | ⟨_, rfl⟩
  · exact Function.update_of_ne (key_join_ne r id root).symm ..
  · exact Function.update_of_ne (key_join_ne r id root).symm ..

/-- Where the padding is of no account, the mark is set for a child. -/
theorem marks_iff_child (hnulls : D.decidesOn r.child.name .nulls condition ≠
      some (!reducer.inverts)) :
    r.Marks D db reducer condition x ↔ ∃ y ∈ db r.child.name, r.Links x y ∧
      D.decidesOn r.child.name y condition = some (!reducer.inverts) := by
  constructor
  · rintro ⟨y, ⟨hy, hlink⟩ | ⟨_, rfl⟩, hdecides⟩
    · exact ⟨y, hy, hlink, hdecides⟩
    · exact absurd hdecides hnulls
  · rintro ⟨y, hy, hlink, hdecides⟩
    exact ⟨y, Or.inl ⟨hy, hlink⟩, hdecides⟩

/-- A mark then tells what the reducer says of the row: for `any` that it holds, for the others that
it does not. -/
theorem marks_iff_holds
    (htwo : ∀ y ∈ db r.child.name, (D.decidesOn r.child.name y condition).isSome = true)
    (hnulls : D.decidesOn r.child.name .nulls condition ≠ some (!reducer.inverts)) :
    r.Marks D db reducer condition x ↔
      (r.Holds D db condition x reducer ↔ reducer.wantsMarker = true) := by
  rw [marks_iff_child hnulls]
  cases reducer with
  | any => exact (iff_true_right rfl).symm
  | none =>
    have hunwanted : ¬ Reducer.none.wantsMarker = true := by decide
    refine Iff.trans ?_ (iff_false_right hunwanted).symm
    constructor
    · rintro ⟨y, hy, hlink, hdecides⟩ hholds
      exact hholds y hy hlink hdecides
    · intro hholds
      by_contra hnone
      apply hholds
      intro y hy hlink hdecides
      exact hnone ⟨y, hy, hlink, hdecides⟩
  | all =>
    have hunwanted : ¬ Reducer.all.wantsMarker = true := by decide
    refine Iff.trans ?_ (iff_false_right hunwanted).symm
    constructor
    · rintro ⟨y, hy, hlink, hdecides⟩ hholds
      cases hdecides.symm.trans (hholds y hy hlink)
    · intro hholds
      by_contra hnone
      apply hholds
      intro y hy hlink
      obtain ⟨b, hb⟩ := Option.isSome_iff_exists.mp (htwo y hy)
      cases b with
      | true => exact hb
      | false => exact absurd ⟨y, hy, hlink, hb⟩ hnone

/-- The rows of the statement for a single reducer are those that pass its test. -/
theorem mem_rows_single (hother : r.child.name ≠ r.parent.name)
    (hreads : ∀ n ∈ condition.names, n = r.child.name)
    (hmarker : r.marker reducer id ≠ r.parent.id) :
    x ∈ Statement.rows D db ⟨[r.cte reducer id [] condition],
        ⟨r.parent.name, [r.join id r.parent.name],
          .test ⟨(r.join id r.parent.name).key, r.marker reducer id⟩
            (if reducer.wantsMarker then .isOne else .isNotOne)⟩⟩ ↔
      x ∈ db r.parent.name ∧ reducer = .any ∧ (x r.parent.id).isSome = true ∧
        r.Marks D db reducer condition x := by
  have hrow : ∀ x : Row V, Function.update (fun _ => Row.nulls) r.parent.name x r.parent.name = x :=
    fun x => Function.update_self ..
  have hparents : (r.cte reducer id [] condition).define D db r.parent.name = db r.parent.name :=
    Function.update_of_ne (cteName_ne r id).symm ..
  have hpasses := fun x (hx : x ∈ db r.parent.name) => @passes_iff V _ D db r reducer id condition
    hother hreads hmarker r.parent.name (Function.update (fun _ => Row.nulls) r.parent.name x)
    (by rwa [hrow])
  simp only [hrow] at hpasses
  simp only [Statement.rows, List.foldl_cons, List.foldl_nil, List.mem_map, mem_scopes_single,
    hparents]
  constructor
  · rintro ⟨s, ⟨⟨row, hmem, hs⟩, hdecides⟩, rfl⟩
    rw [root_of_mem_extend hs, hrow]
    exact ⟨hmem, (hpasses row hmem).mp ⟨s, hs, hdecides⟩⟩
  · rintro ⟨hmem, hx⟩
    obtain ⟨s, hs, hdecides⟩ := (hpasses x hmem).mpr hx
    refine ⟨s, ⟨⟨x, hmem, hs⟩, hdecides⟩, ?_⟩
    rw [root_of_mem_extend hs, hrow]

end reducer

structure ReadsOnly (schema : Schema) (table : String) (e : Expr NodeId) (condition : Term) :
    Prop where
  run : (compile schema e).run (.ofTable table) = (.ok condition, .ofTable table)
  names : ∀ n ∈ condition.names, n = table

def NamesFields (t : Table) (e : Expr NodeId) : Prop :=
  ∀ k ∈ e.nodes, (∀ label callee arguments, k ≠ .call label callee arguments) ∧
    ∀ label path, k = .reference label path →
      ∃ field, path.segments = [t.name, field.name] ∧ t.field? field.name = some field

theorem ReadsOnly.operands {schema : Schema} {table : String} {e left right : Expr NodeId}
    {f : Term → Term → Term} {l r : Term} (hf : Term.combine? e = some f)
    (ho : e.operands = [left, right]) (hl : ReadsOnly schema table left l)
    (hr : ReadsOnly schema table right r) : ReadsOnly schema table e (f l r) := by
  constructor
  · rw [compile_operands hf ho, Attempt.run_bind_ok hl.run, Attempt.run_bind_ok hr.run]
    rfl
  · rw [names_combine hf]
    exact List.forall_mem_append.mpr ⟨hl.names, hr.names⟩

theorem exists_readsOnly {schema : Schema} {t : Table} (ht : schema.table? t.name = some t)
    {e : Expr NodeId} (h : NamesFields t e) : ∃ condition, ReadsOnly schema t.name e condition := by
  have hconstant : ∀ {e : Expr NodeId} {term : Term}, Term.constant? e = some term →
      term.names = [] → ∃ condition, ReadsOnly schema t.name e condition := by
    intro e term hterm hnames
    refine ⟨term, ?_, by simp [hnames]⟩
    rw [compile_constant hterm]
    rfl
  induction e using Expr.induction with
  | null => exact hconstant rfl rfl
  | boolean => exact hconstant rfl rfl
  | number => exact hconstant rfl rfl
  | string => exact hconstant rfl rfl
  | reference label path =>
    obtain ⟨field, hpath, hfield⟩ := (h _ (Expr.self_mem_nodes _)).2 label path rfl
    refine ⟨fieldTerm t.name field, ?_, ?_⟩
    · rw [compile_reference]
      simp only [compileReference, hpath, ht, compileMembers, hfield, if_true]
      simp [Attempt.run_bind, Attempt.run_read, Attempt.run_pure, Draft.ofTable, Draft.root]
    · unfold fieldTerm
      split <;> simp [Term.names]
  | binary label op left right hl hr | conjunction label left right hl hr
  | disjunction label left right hl hr =>
    obtain ⟨l, hleft⟩ := hl fun k hk => h k (by simp [Expr.nodes, hk])
    obtain ⟨r, hright⟩ := hr fun k hk => h k (by simp [Expr.nodes, hk])
    exact ⟨_, hleft.operands rfl rfl hright⟩
  | negation label child hc =>
    obtain ⟨c, hchild⟩ := hc fun k hk => h k (by simp [Expr.nodes, hk])
    refine ⟨.negation c, ?_, hchild.names⟩
    rw [compile_negation, Attempt.run_bind_ok hchild.run]
    rfl
  | call label callee arguments =>
    exact absurd rfl ((h _ (Expr.self_mem_nodes _)).1 label callee arguments)

section call

variable {schema : Schema} {callee : Reference} {reducer : Reducer}
  {child predicate : Expr NodeId} {r : Reduction} {condition : Term}

theorem child_of_resolve {table : String} (h : Reduction.resolve schema table child = .ok r) :
    schema.table? r.child.name = some r.child := by
  obtain ⟨path, hpath⟩ := childPath?_of_resolve h
  have hchild := resolve_eq_ok hpath h
  rwa [Schema.table?_eq_some hchild]

theorem run_reducer {d : Draft} (label : NodeId) (hr : callee.reducer? = some reducer)
    (hresolve : Reduction.resolve schema d.table child = .ok r)
    (hreads : ReadsOnly schema r.child.name predicate condition) :
    (compile schema (.call label callee [child, predicate])).run d =
      (.ok (.test ⟨(r.join predicate.label d.root).key, r.marker reducer predicate.label⟩
          (if reducer.wantsMarker then .isOne else .isNotOne)),
        (d.addCte (r.cte reducer predicate.label [] condition)).addJoin
          (r.join predicate.label d.root)) := by
  have hcondition : (r.condition (some (compile schema predicate))).run (.ofTable r.child.name) =
      (.ok condition, .ofTable r.child.name) := hreads.run
  rw [compile_reducer hr]
  simp only [compileReduction, hresolve, hcondition]
  rfl

theorem select_reducer (label : NodeId) (hr : callee.reducer? = some reducer)
    (hresolve : Reduction.resolve schema r.parent.name child = .ok r)
    (hreads : ReadsOnly schema r.child.name predicate condition) :
    select schema r.parent.name (.call label callee [child, predicate]) = .ok
      ⟨[r.cte reducer predicate.label [] condition],
        ⟨r.parent.name, [r.join predicate.label r.parent.name],
          .test ⟨(r.join predicate.label r.parent.name).key, r.marker reducer predicate.label⟩
            (if reducer.wantsMarker then .isOne else .isNotOne)⟩⟩ := by
  have hrun := @run_reducer schema callee reducer child predicate r condition
    (.ofTable r.parent.name) label hr hresolve hreads
  unfold select
  rw [hrun]
  rfl

end call

/-- A reducer with a predicate that reads its children alone. The marks are set where some child
meets the predicate, or fails it for `all`, and a row without children counts as having one with
nothing but missing values. The test of the marks, in whatever place, lets through the marked rows
for `any`, and no row at all for the others. So where the predicate is never unknown and the missing
values set no mark, the marks are right for every reducer, and the rows for `any` alone. -/
theorem reducer_selects_marked (D : Dialect V) (db : Database V) {schema : Schema}
    {table : String} (label : NodeId) {callee : Reference} {reducer : Reducer}
    {child predicate : Expr NodeId} {r : Reduction} (hr : callee.reducer? = some reducer)
    (hresolve : Reduction.resolve schema table child = .ok r) (hother : r.child.name ≠ table)
    (hmarker : r.marker reducer predicate.label ≠ r.parent.id) :
    (NamesFields r.child predicate →
        ∃ condition, ReadsOnly schema r.child.name predicate condition) ∧
      ∀ condition, ReadsOnly schema r.child.name predicate condition →
        (∀ v, v ∈ (r.cte reducer predicate.label [] condition).ids D db ↔
          ∃ x ∈ db table, x r.parent.id = v ∧ r.Marks D db reducer condition x) ∧
        (∀ d : Draft, d.table = table → ∃ test,
          (compile schema (.call label callee [child, predicate])).run d = (.ok test,
            (d.addCte (r.cte reducer predicate.label [] condition)).addJoin
              (r.join predicate.label d.root)) ∧
          ∀ s : Scope V, s d.root ∈ db table →
            ((∃ s' ∈ (r.join predicate.label d.root).extend
                ((r.cte reducer predicate.label [] condition).define D db) s,
              D.decides s' test = some true) ↔
            reducer = .any ∧ (s d.root r.parent.id).isSome = true ∧
              r.Marks D db reducer condition (s d.root))) ∧
        ∃ stmt, select schema table (.call label callee [child, predicate]) = .ok stmt ∧
          (∀ x, x ∈ stmt.rows D db ↔ x ∈ db table ∧ reducer = .any ∧
            (x r.parent.id).isSome = true ∧ r.Marks D db reducer condition x) ∧
          ((∀ y ∈ db r.child.name, (D.decidesOn r.child.name y condition).isSome = true) →
            D.decidesOn r.child.name .nulls condition ≠ some (!reducer.inverts) →
            ∀ x, (r.Marks D db reducer condition x ↔
                (r.Holds D db condition x reducer ↔ reducer.wantsMarker = true)) ∧
              (x ∈ stmt.rows D db ↔ x ∈ db table ∧ reducer = .any ∧
                r.Holds D db condition x reducer)) := by
  obtain rfl := Schema.table?_eq_some (parent_of_resolve hresolve)
  refine ⟨fun hfields => exists_readsOnly (child_of_resolve hresolve) hfields, ?_⟩
  intro condition hreads
  refine ⟨?_, ?_, ?_⟩
  · intro v
    exact mem_ids_cte hother hreads.names
  · intro d hd
    refine ⟨_, run_reducer label hr (hd ▸ hresolve) hreads, ?_⟩
    intro s hs
    exact passes_iff hother hreads.names hmarker hs
  · refine ⟨_, select_reducer label hr hresolve hreads, ?_, ?_⟩
    · intro x
      exact mem_rows_single hother hreads.names hmarker
    · intro htwo hnulls x
      have hmarks : r.Marks D db reducer condition x ↔ _ := marks_iff_holds htwo hnulls
      refine ⟨hmarks, ?_⟩
      rw [mem_rows_single hother hreads.names hmarker]
      constructor
      · rintro ⟨hx, rfl, _, hmark⟩
        exact ⟨hx, rfl, (hmarks.mp hmark).mpr rfl⟩
      · rintro ⟨hx, rfl, hholds⟩
        have hmark := hmarks.mpr (iff_of_true hholds rfl)
        obtain ⟨_, _, hlink, _⟩ := hholds
        exact ⟨hx, rfl, hlink.1, hmark⟩

def Dialect.bits : Dialect (Double ⊕ String) where
  number := .inl
  text := .inr
  truth b := .inl (.ofDecimal false (if b then 1 else 0) 0)
  isTrue v := v ≠ .inl (.ofDecimal false 0 0)
  isTrue_truth := by decide +kernel
  apply _ _ _ := none
  bare _ := none

def Row.ofNumbers (columns : List (String × Nat)) : Row (Double ⊕ String) :=
  fun name => (columns.lookup name).map fun n => .inl (.ofDecimal false n 0)

/-- Three accounts: with an open contact and another one, with a contact that is not open, and with
no contact. -/
def ledger : Database (Double ⊕ String)
  | "Account" => [.ofNumbers [("Id", 1)], .ofNumbers [("Id", 2)], .ofNumbers [("Id", 3)]]
  | "Contact" => [.ofNumbers [("Id", 4), ("AccountId", 1), ("Open", 1)],
      .ofNumbers [("Id", 5), ("AccountId", 1), ("Open", 0)],
      .ofNumbers [("Id", 6), ("AccountId", 2), ("Open", 0)]]
  | _ => []

theorem reducer_selects_marked_sales : ∃ r condition stmt,
    Reduction.resolve sales "Account" (.reference ⟨7⟩ ⟨["Contact"]⟩) = .ok r ∧
    r.child.name ≠ "Account" ∧
    ReadsOnly sales r.child.name (.reference ⟨8⟩ ⟨["Contact", "Open"]⟩) condition ∧
    r.marker .any ⟨8⟩ ≠ r.parent.id ∧
    select sales "Account" (.call ⟨9⟩ ⟨["any"]⟩
      [.reference ⟨7⟩ ⟨["Contact"]⟩, .reference ⟨8⟩ ⟨["Contact", "Open"]⟩]) = .ok stmt ∧
    (∀ y ∈ ledger r.child.name,
      (Dialect.bits.decidesOn r.child.name y condition).isSome = true) ∧
    Dialect.bits.decidesOn r.child.name .nulls condition ≠ some true ∧
    ∀ x, x ∈ stmt.rows .bits ledger ↔
      x ∈ ledger "Account" ∧ r.Holds .bits ledger condition x .any := by
  have hfind : (Reduction.resolve sales "Account" (.reference ⟨7⟩ ⟨["Contact"]⟩)).toOption.any
      (fun r => r.child.name = "Contact" ∧ r.marker .any ⟨8⟩ ≠ r.parent.id) = true := by
    decide +kernel
  obtain ⟨r, hresolve, hfound⟩ := ok_of_any hfind
  obtain ⟨hchild, hmarker⟩ := of_decide_eq_true hfound
  have hother : r.child.name ≠ "Account" := by
    rw [hchild]
    decide
  have hreads : ReadsOnly sales r.child.name (.reference ⟨8⟩ ⟨["Contact", "Open"]⟩)
      (.test ⟨"Contact", "Open"⟩ .isOne) := by
    rw [hchild]
    exact ⟨by decide +kernel, by decide⟩
  have hnulls : Dialect.bits.decidesOn r.child.name .nulls (.test ⟨"Contact", "Open"⟩ .isOne) ≠
      some true := by
    rw [hchild]
    decide +kernel
  have htwo : ∀ y ∈ ledger r.child.name, (Dialect.bits.decidesOn r.child.name y
      (.test ⟨"Contact", "Open"⟩ .isOne)).isSome = true := by
    rw [hchild]
    decide +kernel
  have hany : Reference.reducer? ⟨["any"]⟩ = some .any := by decide
  obtain ⟨_, hselects⟩ := @reducer_selects_marked _ _ .bits ledger sales "Account" ⟨9⟩ _ _ _
    (.reference ⟨8⟩ ⟨["Contact", "Open"]⟩) r hany hresolve hother hmarker
  obtain ⟨_, _, stmt, hselect, _, hrows⟩ := hselects _ hreads
  refine ⟨r, _, stmt, hresolve, hother, hreads, hmarker, hselect, htwo, hnulls, ?_⟩
  intro x
  simpa using (hrows htwo hnulls x).2

/-- The third account has no contact, so that none of its contacts is open and all of them are, but
neither reducer selects it; nor is there any contact of the account that `any` selects. -/
theorem reducers_mistake_childless :
    ((ledger "Account").map (· "Id")).Nodup ∧
    (∀ y ∈ ledger "Contact", (Dialect.bits.decidesOn "Contact" y
      (.test ⟨"Contact", "Open"⟩ .isOne)).isSome = true) ∧
    (∀ y ∈ ledger "Contact", y "AccountId" ≠ some (.inl (.ofDecimal false 3 0))) ∧
    (∃ stmt, (sales.compileSource "Account" "none(Contact, Contact.Open)").1 = .ok stmt ∧
      (stmt.rows .bits ledger).length = 0) ∧
    (∃ stmt, (sales.compileSource "Account" "all(Contact, Contact.Open)").1 = .ok stmt ∧
      (stmt.rows .bits ledger).length = 0) ∧
    ∃ stmt, (sales.compileSource "Account" "any(Contact, true)").1 = .ok stmt ∧
      ∃ x ∈ stmt.rows .bits ledger, x "Id" = some (.inl (.ofDecimal false 3 0)) := by
  have hnone : (sales.compileSource "Account" "none(Contact, Contact.Open)").1.toOption.any
      (fun stmt => (stmt.rows .bits ledger).length = 0) = true := by
    decide +kernel
  have hall : (sales.compileSource "Account" "all(Contact, Contact.Open)").1.toOption.any
      (fun stmt => (stmt.rows .bits ledger).length = 0) = true := by
    decide +kernel
  have hany : (sales.compileSource "Account" "any(Contact, true)").1.toOption.any
      (fun stmt => (stmt.rows .bits ledger).any
        (fun x => x "Id" = some (.inl (.ofDecimal false 3 0)))) = true := by
    decide +kernel
  refine ⟨by decide +kernel, by decide +kernel, by decide +kernel, ?_, ?_, ?_⟩
  · obtain ⟨stmt, hstmt, hrows⟩ := ok_of_any hnone
    exact ⟨stmt, hstmt, of_decide_eq_true hrows⟩
  · obtain ⟨stmt, hstmt, hrows⟩ := ok_of_any hall
    exact ⟨stmt, hstmt, of_decide_eq_true hrows⟩
  · obtain ⟨stmt, hstmt, hrows⟩ := ok_of_any hany
    obtain ⟨x, hx, hid⟩ := List.any_eq_true.mp hrows
    exact ⟨stmt, hstmt, x, hx, of_decide_eq_true hid⟩

end RowSpec.Sql
