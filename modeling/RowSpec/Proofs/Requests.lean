import Mathlib.Data.List.Nodup
import Mathlib.Data.List.Pairwise
import RowSpec.Proofs.NodeIds
import RowSpec.Proofs.Progress

/-! What a request for a statement amounts to: an expression that was read, has passed both checks,
and is compiled. The count of ids is no part of what the checks and the compiler look at. Behind a
statement stand the expression and the bodies of the specs; an id belongs to one of these only. -/
namespace RowSpec

variable {s t : Schema} {c : Counter}

theorem Schema.table?_congr (h : t.tables = s.tables) : t.table? = s.table? := by
  funext name
  rw [t.indexed.table?, s.indexed.table?, h]

namespace Typing

theorem memberType_congr (h : t.tables = s.tables) (path : Reference) (table : Table)
    (members : List String) :
    memberType t path table members = memberType s path table members := by
  induction members generalizing table with
  | nil => rfl
  | cons member rest ih => simp only [memberType, Schema.table?_congr h, ih]

theorem visit_counter {ι : Type} : @visit ι { s with counter := c } = visit s := by
  have htables : ({ s with counter := c } : Schema).tables = s.tables := rfl
  have href : referenceType { s with counter := c } = referenceType s := by
    funext path
    simp only [referenceType, memberType_congr htables]
    rfl
  funext layer
  cases layer <;> simp only [visit, callType, href]

end Typing

namespace Expr

theorem typeOf_counter (e : Expr NodeId) : e.typeOf { s with counter := c } = e.typeOf s := by
  rw [typeOf, typeOf, Typing.visit_counter]

theorem checkBoolean_counter (subject : String) (e : Expr NodeId) :
    e.checkBoolean { s with counter := c } subject = e.checkBoolean s subject := by
  rw [checkBoolean, checkBoolean, typeOf_counter]

end Expr

namespace Sql

theorem compileMembers_congr (h : t.tables = s.tables) (members : List String) (qualifier : String)
    (table : Table) :
    compileMembers t qualifier table members = compileMembers s qualifier table members := by
  induction members generalizing qualifier table with
  | nil => rfl
  | cons member rest ih => simp only [compileMembers, Schema.table?_congr h, ih]

theorem compileReference_congr (h : t.tables = s.tables) :
    compileReference t = compileReference s := by
  funext path
  simp only [compileReference, Schema.table?_congr h, compileMembers_congr h]

theorem visit_counter (inline : Inline) :
    visit { s with counter := c } inline = visit s inline := by
  have href : compileReference { s with counter := c } = compileReference s :=
    compileReference_congr rfl
  funext layer
  cases layer with
  | reference path => simp only [visit, href]
  | _ => rfl

theorem compileWithin_counter (depth : Nat) :
    compileWithin { s with counter := c } depth = compileWithin s depth := by
  induction depth with
  | zero =>
    funext e
    simp only [compileWithin, visit_counter]
  | succ depth ih =>
    funext e
    simp only [compileWithin, visit_counter, ih]

theorem select_counter (table : String) (e : Expr NodeId) :
    select { s with counter := c } table e = select s table e := by
  simp only [select, compile, compileWithin_counter]

theorem select_eq_ok {table : String} {e : Expr NodeId} {stmt : Statement}
    (h : select s table e = .ok stmt) : ∃ condition d,
      (compile s e).run (.ofTable table) = (.ok condition, d) ∧ stmt = d.statement condition := by
  unfold select at h
  split at h
  · next condition d hrun => exact ⟨condition, d, hrun, (Except.ok.inj h).symm⟩
  · cases h

end Sql

namespace Expr

/-- What is typed as a whole is typed in every part. -/
theorem typeOf_of_mem {e : Expr NodeId} {ty : Ty} (h : e.typeOf s = .ok ty) :
    ∀ n ∈ e.nodes, ∃ ty, n.typeOf s = .ok ty := by
  induction e using induction generalizing ty with
  | null | boolean | number | string | reference =>
    exact List.forall_mem_singleton.mpr ⟨ty, h⟩
  | binary label op left right hl hr =>
    obtain ⟨a, b, ha, hb, _⟩ := typeOf_binary h
    refine List.forall_mem_cons.mpr ⟨⟨ty, h⟩, ?_⟩
    exact List.forall_mem_append.mpr ⟨hl ha, hr hb⟩
  | conjunction label left right hl hr =>
    obtain ⟨ha, hb, _⟩ := typeOf_conjunction h
    refine List.forall_mem_cons.mpr ⟨⟨ty, h⟩, ?_⟩
    exact List.forall_mem_append.mpr ⟨hl ha, hr hb⟩
  | disjunction label left right hl hr =>
    obtain ⟨ha, hb, _⟩ := typeOf_disjunction h
    refine List.forall_mem_cons.mpr ⟨⟨ty, h⟩, ?_⟩
    exact List.forall_mem_append.mpr ⟨hl ha, hr hb⟩
  | negation label child hc =>
    obtain ⟨ha, _⟩ := typeOf_negation h
    exact List.forall_mem_cons.mpr ⟨⟨ty, h⟩, hc ha⟩
  | call label callee arguments ih =>
    intro n hn
    rcases mem_nodes_call.mp hn with rfl | ⟨a, ha, hna⟩
    · exact ⟨ty, h⟩
    · obtain ⟨_, ⟨_, child, predicate, b, b', _, rfl, hb, hb'⟩ | ⟨_, argument, _, rfl, harg⟩⟩ :=
        typeOf_call h
      · rcases List.mem_pair.mp ha with rfl | rfl
        · exact ih _ (by simp) hb n hna
        · exact ih _ (by simp) hb' n hna
      · obtain rfl := List.mem_singleton.mp ha
        rcases harg with harg | harg
        · exact ih _ (by simp) harg n hna
        · exact ih _ (by simp) harg n hna

/-- A call as the checks leave it: of a reducer on a path to children and a predicate, or of a spec
on `null` or on a path to a row of its table. -/
def CallShaped (s : Schema) (callee : Reference) (arguments : List (Expr NodeId)) : Prop :=
  (∃ reducer child predicate path, callee.reducer? = some reducer ∧
      arguments = [child, predicate] ∧ child.childPath? = some path) ∨
    ∃ spec, s.callee? callee = some spec ∧ ((∃ label, arguments = [.null label]) ∨
      ∃ label path, arguments = [.reference label path] ∧
        Typing.referenceType s path = .ok (.table spec.table))

def Shaped (s : Schema) (e : Expr NodeId) : Prop :=
  ∀ label callee arguments, .call label callee arguments ∈ e.nodes →
    CallShaped s callee arguments

theorem Shaped.of_subset {e a : Expr NodeId} (h : e.Shaped s) (hsub : ∀ n ∈ a.nodes, n ∈ e.nodes) :
    a.Shaped s := fun label callee arguments hn => h label callee arguments (hsub _ hn)

theorem shaped_of_checks {e : Expr NodeId} {ty : Ty} {table : String} (hty : e.typeOf s = .ok ty)
    (hscope : e.checkScope s table = .ok ()) : e.Shaped s := by
  intro label callee arguments hn
  obtain ⟨ty', h⟩ := typeOf_of_mem hty _ hn
  obtain ⟨_, ⟨reducer, child, predicate, _, _, hr, rfl, _⟩ | ⟨spec, argument, hs, rfl, harg⟩⟩ :=
    typeOf_call h
  · obtain ⟨_, path, hhead, hpath⟩ := childPath?_of_checkScope hscope hn hr
    cases hhead
    exact Or.inl ⟨reducer, child, predicate, path, hr, rfl, hpath⟩
  · refine Or.inr ⟨spec, hs, ?_⟩
    rcases harg with harg | harg
    · obtain ⟨label', rfl⟩ := eq_null_of_typeOf harg
      exact Or.inl ⟨label', rfl⟩
    · obtain ⟨label', path, rfl, hpath⟩ := eq_reference_of_typeOf harg
      exact Or.inr ⟨label', path, rfl, hpath⟩

end Expr

structure Accepted (s : Schema) (table : String) (e : Expr NodeId) : Prop where
  wellFormed : e.WellFormed
  typed : e.typeOf s = .ok .boolean
  inScope : e.checkScope s table = .ok ()
  registered : (s.table? table).isSome = true

theorem Accepted.shaped {table : String} {e : Expr NodeId} (h : Accepted s table e) : e.Shaped s :=
  Expr.shaped_of_checks h.typed h.inScope

namespace Schema

theorem accepted_spec (hb : s.Built) (hc : s.check = .ok ()) :
    ∀ spec ∈ s.specs, Accepted s spec.table spec.body := by
  intro spec hs
  obtain ⟨hw, hty, hscope, htable⟩ := Sql.specChecked_of_built hb hc spec hs
  exact ⟨hw, hty, hscope, htable⟩

theorem shaped_spec (hb : s.Built) (hc : s.check = .ok ()) :
    ∀ spec ∈ s.specs, spec.body.Shaped s :=
  fun spec hs => (accepted_spec hb hc spec hs).shaped

theorem accepted_of_compileSource {table source : String} {e : Expr NodeId} {stmt : Sql.Statement}
    (hp : parseSource s.counter source = (.ok e, c))
    (h : (s.compileSource table source).1 = .ok stmt) :
    Accepted s table e ∧ Sql.select s table e = .ok stmt := by
  rw [compileSource, readOver_eq] at h
  by_cases ht : (s.table? table).isNone = true
  · rw [if_pos ht] at h
    cases h
  · rw [if_neg ht, readExpr_ok hp] at h
    obtain ⟨_, hb, h⟩ := ok_of_bind h
    obtain ⟨_, hscope, h⟩ := ok_of_bind h
    have hboolean := ok_of_mapError hb
    have hselect := ok_of_mapError h
    rw [Expr.checkBoolean_counter] at hboolean
    rw [Sql.select_counter] at hselect
    refine ⟨⟨wellFormed_of_parseSource hp, typeOf_of_checkBoolean hboolean,
      ok_of_mapError hscope, ?_⟩, hselect⟩
    simpa [Option.isSome_iff_ne_none] using ht

/-- A source yields a statement exactly if it reads as a predicate that passes both checks and
compiles. -/
theorem compileSource_eq_ok_iff {table source : String} {stmt : Sql.Statement} :
    (s.compileSource table source).1 = .ok stmt ↔ (s.table? table).isSome = true ∧
      ∃ e c, parseSource s.counter source = (.ok e, c) ∧ e.typeOf s = .ok .boolean ∧
        e.checkScope s table = .ok () ∧ Sql.select s table e = .ok stmt := by
  constructor
  · intro h
    obtain ⟨r, c, hp⟩ : ∃ r c, parseSource s.counter source = (r, c) := ⟨_, _, rfl⟩
    cases r with
    | error error =>
      rw [compileSource, readOver_eq, readExpr_error hp] at h
      by_cases ht : (s.table? table).isNone = true
      · rw [if_pos ht] at h
        cases h
      · rw [if_neg ht] at h
        cases h
    | ok e =>
      obtain ⟨he, hselect⟩ := accepted_of_compileSource hp h
      exact ⟨he.registered, e, c, hp, he.typed, he.inScope, hselect⟩
  · rintro ⟨htable, e, c, hp, hty, hscope, hselect⟩
    have hknown : ¬ (s.table? table).isNone = true := by
      simpa [Option.isSome_iff_ne_none] using htable
    rw [← Expr.typeOf_counter (c := c)] at hty
    rw [← Sql.select_counter (c := c)] at hselect
    rw [compileSource, readOver_eq, if_neg hknown, readExpr_ok hp]
    exact ok_bind (mapError_ok (checkBoolean_of_typeOf _ hty))
      (ok_bind (mapError_ok hscope) (mapError_ok hselect))

/-- A statement for the rows of a table that meet an expression, made of a source or of a
registered spec. The first number tells the ids taken before, the second those taken behind it. -/
inductive Yields (s : Schema) : Nat → Nat → String → Expr NodeId → Sql.Statement → Prop where
  | source {n : Nat} {table source : String} {e : Expr NodeId} {c : Counter} {stmt : Sql.Statement}
    (hp : parseSource s.counter source = (.ok e, c))
    (h : (s.compileSource table source).1 = .ok stmt) :
    Yields s n (n + idsTaken s.counter source) table e stmt
  | spec {n : Nat} {spec : Spec} {stmt : Sql.Statement} (hs : spec ∈ s.specs)
    (h : spec.statement s = .ok stmt) : Yields s n n spec.table spec.body stmt

variable {n m : Nat} {table : String} {e : Expr NodeId} {stmt : Sql.Statement}

theorem exists_yields {source : String} (h : (s.compileSource table source).1 = .ok stmt)
    (n : Nat) :
    ∃ e, s.Yields n (n + idsTaken s.counter source) table e stmt := by
  obtain ⟨_, e, c, hp, _⟩ := compileSource_eq_ok_iff.mp h
  exact ⟨e, .source hp h⟩

theorem Yields.accepted (h : s.Yields n m table e stmt) (hb : s.Built) (hc : s.check = .ok ()) :
    Accepted s table e ∧ Sql.select s table e = .ok stmt := by
  cases h with
  | source hp h => exact accepted_of_compileSource hp h
  | spec hs h => exact ⟨accepted_spec hb hc _ hs, ok_of_mapError h⟩

def homes (s : Schema) (table : String) (e : Expr NodeId) : List (String × Expr NodeId) :=
  (table, e) :: s.specs.map fun spec => (spec.table, spec.body)

theorem Yields.numbersCalls (h : s.Yields n m table e stmt) (hb : s.Built) :
    ∀ x ∈ s.homes table e, x.2.NumbersCalls := by
  have hspec : ∀ spec ∈ s.specs, spec.body.NumbersCalls := by
    intro spec hs
    obtain ⟨_, _, _, hp⟩ := hb.spec spec hs
    exact numbersCalls_of_parseSource hp
  rw [homes, List.forall_mem_cons, List.forall_mem_map]
  refine ⟨?_, hspec⟩
  cases h with
  | source hp _ => exact numbersCalls_of_parseSource hp
  | spec hs _ => exact hspec _ hs

structure Unmixed (homes : List (String × Expr NodeId)) : Prop where
  nodup : ∀ x ∈ homes, x.2.ids.Nodup
  apart : ∀ x ∈ homes, ∀ y ∈ homes, ∀ id ∈ x.2.ids, id ∈ y.2.ids → x = y

theorem unmixed_specs (h : s.specIds.Nodup) :
    Unmixed (s.specs.map fun spec => (spec.table, spec.body)) := by
  obtain ⟨hnodup, hpair⟩ := List.nodup_flatMap.mp h
  constructor
  · intro x hx
    obtain ⟨spec, hs, rfl⟩ := List.mem_map.mp hx
    exact hnodup spec hs
  · intro x hx y hy id hid hid'
    obtain ⟨a, ha, rfl⟩ := List.mem_map.mp hx
    obtain ⟨b, hb, rfl⟩ := List.mem_map.mp hy
    by_cases hab : a = b
    · rw [hab]
    · have hsymm : Std.Symm (Function.onFun List.Disjoint fun spec : Spec => spec.body.ids) :=
        ⟨fun _ _ h _ ha hb => h hb ha⟩
      exact absurd hid' (hpair.forall ha hb hab hid)

theorem Yields.unmixed (h : s.Yields n m table e stmt) (ht : s.Took n) (hm : m < UInt32.size) :
    Unmixed (s.homes table e) := by
  cases h with
  | source hp h =>
    obtain ⟨hcount, hspans⟩ := ht.spans (by omega)
    have he := spans_of_parseSource hp hcount hm
    obtain ⟨hnodup, hapart⟩ := unmixed_specs hspans.nodup
    -- the ids of the expression come behind those of the specs
    have hbehind : ∀ y ∈ s.specs.map (fun spec => (spec.table, spec.body)),
        ∀ id ∈ e.ids, id ∉ y.2.ids := by
      intro y hy id hid hid'
      obtain ⟨spec, hs, rfl⟩ := List.mem_map.mp hy
      have hlow := hspans.range id (List.mem_flatMap.mpr ⟨spec, hs, hid'⟩)
      have hhigh := he.range id hid
      omega
    constructor
    · rw [homes, List.forall_mem_cons]
      exact ⟨he.nodup, hnodup⟩
    · intro x hx y hy id hid hid'
      rcases List.mem_cons.mp hx with rfl | hx
      · rcases List.mem_cons.mp hy with rfl | hy
        · rfl
        · exact absurd hid' (hbehind y hy id hid)
      · rcases List.mem_cons.mp hy with rfl | hy
        · exact absurd hid (hbehind x hx id hid')
        · exact hapart x hx y hy id hid hid'
  | @spec owner _ hs h =>
    obtain ⟨_, hspans⟩ := ht.spans hm
    obtain ⟨hnodup, hapart⟩ := unmixed_specs hspans.nodup
    have hmem : ∀ x ∈ s.homes owner.table owner.body,
        x ∈ s.specs.map fun spec => (spec.table, spec.body) := by
      rw [homes, List.forall_mem_cons]
      exact ⟨List.mem_map_of_mem hs, fun x hx => hx⟩
    constructor
    · intro x hx
      exact hnodup x (hmem x hx)
    · intro x hx y hy
      exact hapart x (hmem x hx) y (hmem y hy)

end Schema

end RowSpec
