import RowSpec.Proofs.Tree
import RowSpec.Sql.Compile

/-! How deep the calls of specs nest below an expression. Calls that nest at all nest no deeper than
there are specs, so an expression whose calls never come back to a spec is compiled within the depth
that the compiler allows, and a compilation that succeeds within some depth is the same within any
greater one. -/
namespace RowSpec

namespace Schema

theorem spec?_eq_some {schema : Schema} {name : String} {s : Spec}
    (h : schema.spec? name = some s) : s ∈ schema.specs ∧ s.name = name := by
  rw [schema.indexed.spec?] at h
  refine ⟨List.mem_of_find?_eq_some h, ?_⟩
  simpa using List.find?_some h

/-- The spec that a callee stands for. The names of reducers never stand for one. -/
def callee? (schema : Schema) (callee : Reference) : Option Spec :=
  callee.single?.bind fun name =>
    if (Reducer.ofName? name).isSome then none else schema.spec? name

theorem callee?_eq_some {schema : Schema} {callee : Reference} {s : Spec} :
    schema.callee? callee = some s ↔ callee.single? = some s.name ∧
      Reducer.ofName? s.name = none ∧ schema.spec? s.name = some s := by
  unfold callee?
  constructor
  · intro h
    obtain ⟨name, hname, h⟩ := Option.bind_eq_some_iff.mp h
    split at h
    · cases h
    · next hr =>
      obtain rfl := (spec?_eq_some h).2
      exact ⟨hname, by simpa using hr, h⟩
  · rintro ⟨hname, hr, hs⟩
    simp [hname, hr, hs]

theorem mem_specs_of_callee? {schema : Schema} {callee : Reference} {s : Spec}
    (h : schema.callee? callee = some s) : s ∈ schema.specs :=
  (spec?_eq_some (callee?_eq_some.mp h).2.2).1

end Schema

namespace Expr

def Calls (schema : Schema) (e : Expr NodeId) (s : Spec) : Prop :=
  ∃ callee ∈ e.callees, schema.callee? callee = some s

inductive Reaches (schema : Schema) : Expr NodeId → Spec → Prop where
  | direct {e : Expr NodeId} {s : Spec} (h : e.Calls schema s) : Reaches schema e s
  | step {e : Expr NodeId} {s t : Spec} (h : e.Calls schema s) (rest : Reaches schema s.body t) :
    Reaches schema e t

def called (schema : Schema) (e : Expr NodeId) : List Spec :=
  e.callees.filterMap schema.callee?

def NestsWithin (schema : Schema) : Nat → Expr NodeId → Prop
  | 0, e => ∀ s, ¬ e.Calls schema s
  | depth + 1, e => ∀ s, e.Calls schema s → NestsWithin schema depth s.body

variable {schema : Schema} {e : Expr NodeId} {s t : Spec} {n m : Nat}

theorem mem_called : s ∈ e.called schema ↔ e.Calls schema s := List.mem_filterMap

theorem calls_of_mem {label : NodeId} {callee : Reference} {arguments : List (Expr NodeId)}
    (h : .call label callee arguments ∈ e.nodes) (hs : schema.callee? callee = some s) :
    e.Calls schema s := ⟨callee, mem_callees.mpr ⟨label, arguments, h⟩, hs⟩

theorem Calls.of_subset {a : Expr NodeId} (h : a.Calls schema s)
    (hsub : ∀ x ∈ a.nodes, x ∈ e.nodes) : e.Calls schema s := by
  obtain ⟨callee, hmem, hs⟩ := h
  obtain ⟨label, arguments, hn⟩ := mem_callees.mp hmem
  exact calls_of_mem (hsub _ hn) hs

theorem Calls.spec? (h : e.Calls schema s) : schema.spec? s.name = some s := by
  obtain ⟨_, _, hs⟩ := h
  exact (Schema.callee?_eq_some.mp hs).2.2

theorem Reaches.spec? (h : e.Reaches schema s) : schema.spec? s.name = some s := by
  induction h with
  | direct h => exact h.spec?
  | step _ _ ih => exact ih

theorem NestsWithin.of_reaches (h : e.NestsWithin schema n) (hr : e.Reaches schema s) :
    ∃ k < n, s.body.NestsWithin schema k := by
  induction hr generalizing n with
  | direct hc =>
    cases n with
    | zero => exact absurd hc (h _)
    | succ n => exact ⟨n, Nat.lt_succ_self n, h _ hc⟩
  | step hc _ ih =>
    cases n with
    | zero => exact absurd hc (h _)
    | succ n =>
      obtain ⟨k, hk, hb⟩ := ih (h _ hc)
      exact ⟨k, Nat.lt_succ_of_lt hk, hb⟩

/-- A spec that comes back to itself nests without end. -/
theorem NestsWithin.not_reaches (h : s.body.NestsWithin schema n) : ¬ s.body.Reaches schema s := by
  intro hr
  induction n using Nat.strongRecOn with
  | ind n ih =>
    obtain ⟨k, hk, hb⟩ := h.of_reaches hr
    exact ih k hk hb

theorem nestsWithin_of_names (names : List String)
    (h : ∀ s, e.Reaches schema s → s.name ∈ names ∧ ¬ s.body.Reaches schema s) :
    e.NestsWithin schema names.length := by
  -- a spec that has been entered is never reached again, so its name may be crossed out
  generalize hn : names.length = n
  induction n generalizing names e with
  | zero =>
    intro s hc
    rw [List.length_eq_zero_iff.mp hn] at h
    exact absurd (h s (.direct hc)).1 (by simp)
  | succ n ih =>
    intro s hc
    obtain ⟨hs, hself⟩ := h s (.direct hc)
    refine ih (names.erase s.name) ?_ (by rw [List.length_erase_of_mem hs, hn]; rfl)
    intro t ht
    obtain ⟨hmem, hcycle⟩ := h t (.step hc ht)
    refine ⟨?_, hcycle⟩
    refine (List.mem_erase_of_ne ?_).mpr hmem
    intro heq
    have hts : t = s := by
      have := ht.spec?
      rw [heq, hc.spec?] at this
      exact (Option.some.inj this).symm
    exact hself (hts ▸ ht)

theorem nestsWithin_specs (h : ∀ s, e.Reaches schema s → ¬ s.body.Reaches schema s) :
    e.NestsWithin schema schema.specs.length := by
  rw [← schema.specs.length_map Spec.name]
  refine nestsWithin_of_names _ fun s hs => ⟨?_, h s hs⟩
  exact List.mem_map_of_mem (Schema.spec?_eq_some hs.spec?).1

theorem NestsWithin.specs (h : e.NestsWithin schema n) :
    e.NestsWithin schema schema.specs.length := by
  refine nestsWithin_specs fun s hs => ?_
  obtain ⟨k, _, hb⟩ := h.of_reaches hs
  exact hb.not_reaches

instance decidableNestsWithin (schema : Schema) :
    ∀ (n : Nat) (e : Expr NodeId), Decidable (e.NestsWithin schema n)
  | 0, e => decidable_of_iff (e.called schema = []) (by
      simp only [NestsWithin, ← mem_called, List.eq_nil_iff_forall_not_mem])
  | n + 1, e =>
    have := decidableNestsWithin schema n
    decidable_of_iff (∀ s ∈ e.called schema, s.body.NestsWithin schema n) (by
      simp only [NestsWithin, ← mem_called])

theorem childPath?_eq_some_iff {ι : Type} {e : Expr ι} {path : Reference} :
    e.childPath? = some path ↔ ∃ label, e = .reference label path ∧
      (path.segments.length = 1 ∨ path.segments.length = 2) := by
  cases e with
  | reference label p =>
    simp only [childPath?, reference?, Option.filter_eq_some_iff, Option.some.injEq,
      Bool.or_eq_true, beq_iff_eq, reference.injEq]
    constructor
    · rintro ⟨rfl, hlength⟩
      exact ⟨label, ⟨rfl, rfl⟩, hlength⟩
    · rintro ⟨_, ⟨_, rfl⟩, hlength⟩
      exact ⟨rfl, hlength⟩
  | _ => simp [childPath?, reference?]

end Expr

def Schema.Acyclic (schema : Schema) : Prop := ∀ s ∈ schema.specs, ¬ s.body.Reaches schema s

theorem Schema.acyclic_iff {schema : Schema} : schema.Acyclic ↔
    ∀ s ∈ schema.specs, s.body.NestsWithin schema schema.specs.length := by
  constructor
  · intro h s _
    exact Expr.nestsWithin_specs fun t ht => h t (spec?_eq_some ht.spec?).1
  · exact fun h s hs => (h s hs).not_reaches

instance (schema : Schema) : Decidable schema.Acyclic := decidable_of_iff _ Schema.acyclic_iff.symm

namespace Sql

open RowSpec.Expr

variable {schema : Schema} {e : Expr NodeId} {s : Spec} {n m : Nat}

theorem compileCall_congr {inline inline' : Inline} {id : NodeId} {callee : Reference}
    {arguments : List (Expr NodeId × Build Term)}
    (h : ∀ spec row, schema.callee? callee = some spec → inline spec row = inline' spec row) :
    compileCall schema inline id callee arguments =
      compileCall schema inline' id callee arguments := by
  unfold compileCall
  split
  · rfl
  · next name hname =>
    split
    · rfl
    · next hr =>
      unfold compileSpec
      split
      · rfl
      · next spec hs =>
        obtain rfl := (Schema.spec?_eq_some hs).2
        simp only [fun row => h spec row (Schema.callee?_eq_some.mpr ⟨hname, hr, hs⟩)]

/-- How specs are compiled matters for those alone that are called. -/
theorem postorder_congr {inline inline' : Inline}
    (h : ∀ s row, e.Calls schema s → inline s row = inline' s row) :
    e.postorder (visit schema inline) = e.postorder (visit schema inline') := by
  induction e using Expr.induction with
  | binary label op left right hl hr | conjunction label left right hl hr
  | disjunction label left right hl hr =>
    have hleft := hl fun s row hc => h s row (hc.of_subset (by simp +contextual [nodes]))
    have hright := hr fun s row hc => h s row (hc.of_subset (by simp +contextual [nodes]))
    simp only [postorder, hleft, hright, visit]
  | negation label child hc =>
    have hchild := hc fun s row hc => h s row (hc.of_subset (by simp +contextual [nodes]))
    simp only [postorder, hchild, visit]
  | call label callee arguments ih =>
    have hall : postorderAll (visit schema inline) arguments =
        postorderAll (visit schema inline') arguments := by
      rw [postorderAll_eq_map, postorderAll_eq_map]
      refine List.map_congr_left fun a ha => ?_
      rw [ih a ha fun s row hc => h s row (hc.of_subset (mem_nodes_argument ha))]
    simp only [postorder, hall, visit]
    exact compileCall_congr fun spec row hs => h spec row (calls_of_mem (self_mem_nodes _) hs)
  | _ => simp only [postorder, visit]

theorem compileWithin_congr (h : e.NestsWithin schema n) (hm : n ≤ m) :
    compileWithin schema n e = compileWithin schema m e := by
  induction n generalizing m e with
  | zero =>
    cases m with
    | zero => rfl
    | succ m => exact postorder_congr fun s _ hc => absurd hc (h s)
  | succ n ih =>
    cases m with
    | zero => omega
    | succ m =>
      refine postorder_congr fun s row hc => ?_
      simp only [ih (h s hc) (Nat.le_of_succ_le_succ hm)]

theorem compileSpec_eq_ok {inline : Inline} {name : String}
    {arguments : List (Expr NodeId × Build Term)} {d d' : Draft} {term : Term}
    (h : (compileSpec schema inline name arguments).run d = (.ok term, d')) :
    ∃ spec a argument found d₁ row nested, schema.spec? name = some spec ∧
      arguments = [(a, argument)] ∧ argument.run d = (.ok found, d₁) ∧
      rowName? found.render = some row ∧ inline spec row = (.ok term, nested) ∧
      d' = d₁.absorb nested := by
  unfold compileSpec at h
  split at h
  · cases h
  · next spec hs =>
    split at h
    · next a argument =>
      obtain ⟨found, d₁, ha, h⟩ := Attempt.run_bind_eq_ok h
      split at h
      · cases h
      · next row hrow =>
        split at h
        · cases h
        · next predicate nested hi =>
          cases h
          exact ⟨spec, a, argument, found, d₁, row, nested, hs, rfl, ha, hrow, hi, rfl⟩
    · cases h

theorem compileReduction_eq_ok {reducer : Reducer} {id : NodeId} {child : Expr NodeId}
    {predicate? : Option (Build Term)} {d d' : Draft} {term : Term}
    (h : (compileReduction schema reducer id child predicate?).run d = (.ok term, d')) :
    ∃ r condition nested, Reduction.resolve schema d.table child = .ok r ∧
      (r.condition predicate?).run (.ofTable r.child.name) = (.ok condition, nested) ∧
      term = .test ⟨(r.join id d.root).key, r.marker reducer id⟩
        (if reducer.wantsMarker then .isOne else .isNotOne) ∧
      d' = ((d.addCtes nested.ctes).addCte (r.cte reducer id nested.joins condition)).addJoin
        (r.join id d.root) := by
  simp only [compileReduction] at h
  split at h
  · cases h
  · next r hr =>
    split at h
    · cases h
    · next condition nested hc =>
      cases h
      exact ⟨r, condition, nested, hr, hc, rfl, rfl⟩

theorem childPath?_of_resolve {table : String} {child : Expr NodeId} {r : Reduction}
    (h : Reduction.resolve schema table child = .ok r) : ∃ path, child.childPath? = some path := by
  unfold Reduction.resolve at h
  split at h
  · cases h
  · next path hp => exact ⟨path, hp⟩

theorem eq_reference_of_childPath? {child : Expr NodeId} {path : Reference}
    (h : child.childPath? = some path) : ∃ label, child = .reference label path := by
  obtain ⟨label, hchild, _⟩ := childPath?_eq_some_iff.mp h
  exact ⟨label, hchild⟩

theorem compileReducer_eq_ok {reducer : Reducer} {id : NodeId}
    {arguments : List (Expr NodeId × Build Term)} {d d' : Draft} {term : Term}
    (h : (compileReducer schema reducer id arguments).run d = (.ok term, d')) :
    ∀ a ∈ arguments, (∃ label path, a.1 = .reference label path) ∨
      ∃ table condition nested, a.2.run (.ofTable table) = (.ok condition, nested) := by
  have first : ∀ {child r}, Reduction.resolve schema d.table child = .ok r →
      ∃ label path, child = .reference label path := by
    intro child r hr
    obtain ⟨path, hp⟩ := childPath?_of_resolve hr
    obtain ⟨label, hl⟩ := eq_reference_of_childPath? hp
    exact ⟨label, path, hl⟩
  unfold compileReducer at h
  split at h
  · obtain ⟨r, _, _, hr, _⟩ := compileReduction_eq_ok h
    exact List.forall_mem_singleton.mpr (Or.inl (first hr))
  · obtain ⟨r, condition, nested, hr, hc, _⟩ := compileReduction_eq_ok h
    refine List.forall_mem_cons.mpr ⟨Or.inl (first hr), ?_⟩
    exact List.forall_mem_singleton.mpr (Or.inr ⟨_, condition, nested, hc⟩)
  · cases h

theorem compileCall_eq_ok {inline : Inline} {id : NodeId} {callee : Reference}
    {arguments : List (Expr NodeId × Build Term)} {d d' : Draft} {term : Term}
    (h : (compileCall schema inline id callee arguments).run d = (.ok term, d')) :
    ∀ a ∈ arguments, (∃ label path, a.1 = .reference label path) ∨
      ∃ start found nested, a.2.run start = (.ok found, nested) := by
  intro a ha
  unfold compileCall at h
  split at h
  · cases h
  · split at h
    · rcases compileReducer_eq_ok h a ha with hreference | ⟨table, condition, nested, hc⟩
      · exact Or.inl hreference
      · exact Or.inr ⟨_, condition, nested, hc⟩
    · obtain ⟨_, _, argument, found, d₁, _, _, _, rfl, hargument, _⟩ := compileSpec_eq_ok h
      obtain rfl := List.mem_singleton.mp ha
      exact Or.inr ⟨d, found, d₁, hargument⟩

theorem inline_ok_of_run_ok {inline : Inline} {d d' : Draft} {term : Term}
    (h : (e.postorder (visit schema inline)).run d = (.ok term, d')) (hc : e.Calls schema s) :
    ∃ row predicate nested, inline s row = (.ok predicate, nested) := by
  obtain ⟨callee, hcallee, hs⟩ := hc
  obtain ⟨label, arguments, hmem⟩ := mem_callees.mp hcallee
  clear hcallee
  induction e using Expr.induction generalizing d d' term with
  | binary _ op left right hl hr | conjunction _ left right hl hr
  | disjunction _ left right hl hr =>
    obtain ⟨l, d₁, hleft, h⟩ := Attempt.run_bind_eq_ok h
    obtain ⟨r, d₂, hright, h⟩ := Attempt.run_bind_eq_ok h
    simp only [nodes, List.mem_cons, reduceCtorEq, false_or, List.mem_append] at hmem
    rcases hmem with hmem | hmem
    · exact hl hleft hmem
    · exact hr hright hmem
  | negation _ child hchild =>
    obtain ⟨c, d₁, hrun, h⟩ := Attempt.run_bind_eq_ok h
    simp only [nodes, List.mem_cons, reduceCtorEq, false_or] at hmem
    exact hchild hrun hmem
  | call label' callee' arguments' ih =>
    have hcall : (compileCall schema inline label' callee'
        (postorderAll (visit schema inline) arguments')).run d = (.ok term, d') := h
    rw [postorderAll_eq_map] at hcall
    rcases mem_nodes_call.mp hmem with heq | ⟨a, ha, hmem⟩
    · cases heq
      obtain ⟨hname, hred, hs⟩ := Schema.callee?_eq_some.mp hs
      simp only [compileCall, hname, hred] at hcall
      obtain ⟨spec, _, _, _, _, row, nested, hspec, _, _, _, hi, _⟩ := compileSpec_eq_ok hcall
      cases hs.symm.trans hspec
      exact ⟨row, term, nested, hi⟩
    · have hwalk : (a, a.postorder (visit schema inline)) ∈
          arguments'.map fun e => (e, e.postorder (visit schema inline)) :=
        List.mem_map_of_mem ha
      rcases compileCall_eq_ok hcall _ hwalk with ⟨label, path, hp⟩ | ⟨start, found, nested, hrun⟩
      · -- the first argument of a reducer is not compiled, but has no calls
        obtain rfl : a = .reference label path := hp
        simp [nodes] at hmem
      · exact ih a ha hrun hmem
  | _ => simp [nodes] at hmem

/-- A compilation that succeeds has followed every chain of calls to its end. -/
theorem nestsWithin_of_run_ok {d d' : Draft} {term : Term}
    (h : (compileWithin schema n e).run d = (.ok term, d')) : e.NestsWithin schema n := by
  induction n generalizing e d d' term with
  | zero =>
    intro s hc
    obtain ⟨_, _, _, hi⟩ := inline_ok_of_run_ok h hc
    cases hi
  | succ n ih =>
    intro s hc
    obtain ⟨_, _, _, hi⟩ := inline_ok_of_run_ok h hc
    exact ih hi

end Sql

end RowSpec
