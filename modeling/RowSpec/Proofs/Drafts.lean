import RowSpec.Proofs.Tree
import RowSpec.Sql.Compile

/-! A compilation adds to the draft it is given, and what it adds does not depend on what is there:
it is what the same compilation makes of the empty draft, behind what was asked for before and
without what is there already. -/
namespace RowSpec.Sql

/-- The entries of the second list behind those of the first, each unless its key is taken. -/
def mergeBy {α : Type} (key : α → String) (xs ys : List α) : List α :=
  ys.foldl (fun acc y => if acc.any (key · == key y) then acc else acc ++ [y]) xs

section mergeBy

variable {α : Type} {key : α → String}

theorem mergeBy_append (xs ys zs : List α) :
    mergeBy key xs (ys ++ zs) = mergeBy key (mergeBy key xs ys) zs := List.foldl_append

theorem mergeBy_cons_taken {xs : List α} {y : α} (h : xs.any (key · == key y) = true)
    (ys : List α) : mergeBy key xs (y :: ys) = mergeBy key xs ys := by
  simp only [mergeBy, List.foldl_cons, h, if_true]

theorem mergeBy_cons_free {xs : List α} {y : α} (h : xs.any (key · == key y) = false)
    (ys : List α) : mergeBy key xs (y :: ys) = mergeBy key (xs ++ [y]) ys := by
  simp only [mergeBy, List.foldl_cons, h, Bool.false_eq_true, if_false]

theorem mergeBy_of_taken {xs ys : List α} (h : ∀ y ∈ ys, xs.any (key · == key y) = true) :
    mergeBy key xs ys = xs := by
  induction ys with
  | nil => rfl
  | cons y ys ih =>
    obtain ⟨hy, hys⟩ := List.forall_mem_cons.mp h
    rw [mergeBy_cons_taken hy, ih hys]

theorem any_mergeBy (xs ys : List α) (k : String) :
    (mergeBy key xs ys).any (key · == k) = (xs.any (key · == k) || ys.any (key · == k)) := by
  induction ys generalizing xs with
  | nil => simp [mergeBy]
  | cons y ys ih =>
    cases h : xs.any (key · == key y) with
    | true =>
      rw [mergeBy_cons_taken h, ih, List.any_cons]
      by_cases hk : key y = k
      · rw [hk] at h
        rw [h, Bool.true_or, Bool.true_or]
      · rw [beq_eq_false_iff_ne.mpr hk, Bool.false_or]
    | false =>
      rw [mergeBy_cons_free h, ih, List.any_append, List.any_cons, List.any_cons, List.any_nil,
        Bool.or_false, Bool.or_assoc]

theorem mergeBy_mergeBy (xs ys zs : List α) :
    mergeBy key xs (mergeBy key ys zs) = mergeBy key (mergeBy key xs ys) zs := by
  induction zs generalizing ys with
  | nil => rfl
  | cons z zs ih =>
    cases h : ys.any (key · == key z) with
    | true =>
      have htaken : (mergeBy key xs ys).any (key · == key z) = true := by rw [any_mergeBy, h]; simp
      rw [mergeBy_cons_taken h, mergeBy_cons_taken htaken, ih]
    | false => rw [mergeBy_cons_free h, ih, mergeBy_append, ← mergeBy_append, List.singleton_append]

theorem subset_mergeBy (xs ys : List α) : ∀ x ∈ xs, x ∈ mergeBy key xs ys := by
  induction ys generalizing xs with
  | nil => exact fun x hx => hx
  | cons y ys ih =>
    intro x hx
    cases h : xs.any (key · == key y) with
    | true => rw [mergeBy_cons_taken h]; exact ih xs x hx
    | false => rw [mergeBy_cons_free h]; exact ih _ x (List.mem_append_left _ hx)

theorem mem_or_mem_of_mem_mergeBy {xs ys : List α} :
    ∀ x ∈ mergeBy key xs ys, x ∈ xs ∨ x ∈ ys := by
  induction ys generalizing xs with
  | nil => exact fun x hx => Or.inl hx
  | cons y ys ih =>
    intro x hx
    cases h : xs.any (key · == key y) with
    | true =>
      rw [mergeBy_cons_taken h] at hx
      exact (ih x hx).imp_right (List.mem_cons_of_mem y)
    | false =>
      rw [mergeBy_cons_free h] at hx
      rcases ih x hx with hx | hx
      · rcases List.mem_append.mp hx with hx | hx
        · exact Or.inl hx
        · exact Or.inr (List.mem_cons.mpr (Or.inl (List.mem_singleton.mp hx)))
      · exact Or.inr (List.mem_cons_of_mem y hx)

theorem mem_of_mem_mergeBy_nil {ys : List α} : ∀ x ∈ mergeBy key [] ys, x ∈ ys :=
  fun x hx => (mem_or_mem_of_mem_mergeBy x hx).resolve_left (by simp)

theorem nodup_mergeBy {xs : List α} (h : (xs.map key).Nodup) (ys : List α) :
    ((mergeBy key xs ys).map key).Nodup := by
  induction ys generalizing xs with
  | nil => exact h
  | cons y ys ih =>
    cases hy : xs.any (key · == key y) with
    | true => rw [mergeBy_cons_taken hy]; exact ih h
    | false =>
      rw [mergeBy_cons_free hy]
      refine ih ?_
      have hnew : key y ∉ xs.map key := by
        intro hmem
        obtain ⟨x, hx, hkey⟩ := List.mem_map.mp hmem
        rw [List.any_eq_false] at hy
        exact hy x hx (beq_iff_eq.mpr hkey)
      rw [List.map_append, List.nodup_append]
      refine ⟨h, by simp, fun a ha b hb heq => hnew ?_⟩
      rw [List.map_singleton, List.mem_singleton] at hb
      rwa [← hb, ← heq]

end mergeBy

namespace Draft

def cleared (d : Draft) : Draft := { d with joins := [], ctes := [] }

theorem addJoins_eq (d : Draft) (joins : List Join) :
    d.addJoins joins = { d with joins := mergeBy Join.key d.joins joins } := by
  unfold addJoins
  induction joins generalizing d with
  | nil => rfl
  | cons j js ih =>
    rw [List.foldl_cons, ih, addJoin]
    split
    · next h => rw [mergeBy_cons_taken h]
    · next h => rw [mergeBy_cons_free (Bool.eq_false_iff.mpr h)]

theorem addCtes_eq (d : Draft) (ctes : List Cte) :
    d.addCtes ctes = { d with ctes := mergeBy Cte.render d.ctes ctes } := by
  unfold addCtes
  induction ctes generalizing d with
  | nil => rfl
  | cons c cs ih =>
    rw [List.foldl_cons, ih, addCte]
    split
    · next h => rw [mergeBy_cons_taken h]
    · next h => rw [mergeBy_cons_free (Bool.eq_false_iff.mpr h)]

theorem addJoin_eq (d : Draft) (j : Join) :
    d.addJoin j = { d with joins := mergeBy Join.key d.joins [j] } := addJoins_eq d [j]

theorem addCte_eq (d : Draft) (c : Cte) :
    d.addCte c = { d with ctes := mergeBy Cte.render d.ctes [c] } := addCtes_eq d [c]

theorem absorb_eq (d nested : Draft) :
    d.absorb nested = { d with
      joins := mergeBy Join.key d.joins nested.joins
      ctes := mergeBy Cte.render d.ctes nested.ctes } := by
  rw [absorb, addCtes_eq, addJoins_eq]

@[simp] theorem absorb_table (d nested : Draft) : (d.absorb nested).table = d.table := by
  rw [absorb_eq]

@[simp] theorem absorb_rename? (d nested : Draft) : (d.absorb nested).rename? = d.rename? := by
  rw [absorb_eq]

theorem absorb_empty (d : Draft) {nested : Draft} (hj : nested.joins = []) (hc : nested.ctes = []) :
    d.absorb nested = d := by
  rw [absorb_eq, hj, hc]
  rfl

@[simp] theorem absorb_cleared (d : Draft) : d.absorb d.cleared = d := absorb_empty d rfl rfl

theorem absorb_absorb (d n m : Draft) : d.absorb (n.absorb m) = (d.absorb n).absorb m := by
  simp only [absorb_eq, mergeBy_mergeBy]

theorem cleared_absorb (d nested : Draft) : (d.absorb nested).cleared = d.cleared := by
  rw [absorb_eq]
  rfl

theorem addJoins_absorb_addJoins (d nested : Draft) (joins : List Join) :
    ((d.addJoins joins).absorb nested).addJoins joins = (d.addJoins joins).absorb nested := by
  simp only [absorb_eq, addJoins_eq, Draft.mk.injEq, true_and, and_true]
  refine mergeBy_of_taken fun j hj => ?_
  have hkey : joins.any (·.key == j.key) = true := List.any_eq_true.mpr ⟨j, hj, beq_self_eq_true _⟩
  rw [any_mergeBy, any_mergeBy, hkey, Bool.or_true, Bool.true_or]

theorem absorb_addJoins (d nested : Draft) (joins : List Join) :
    d.absorb (nested.addJoins joins) = (d.absorb nested).addJoins joins := by
  simp only [absorb_eq, addJoins_eq, mergeBy_mergeBy]

theorem absorb_addCtes (d nested : Draft) (ctes : List Cte) :
    d.absorb (nested.addCtes ctes) = (d.absorb nested).addCtes ctes := by
  simp only [absorb_eq, addCtes_eq, mergeBy_mergeBy]

theorem absorb_addJoin (d nested : Draft) (j : Join) :
    d.absorb (nested.addJoin j) = (d.absorb nested).addJoin j := absorb_addJoins d nested [j]

theorem absorb_addCte (d nested : Draft) (c : Cte) :
    d.absorb (nested.addCte c) = (d.absorb nested).addCte c := absorb_addCtes d nested [c]

end Draft

/-- A run adds to any draft what it makes of the cleared one. -/
def Adds {α : Type} (b : Build α) : Prop :=
  ∀ d, b.run d = ((b.run d.cleared).1, d.absorb (b.run d.cleared).2)

section Adds

variable {α β : Type}

theorem adds_pure (a : α) : Adds (pure a : Build α) := by
  intro d
  simp

theorem adds_fail (e : CompileError) : Adds (Attempt.fail e : Build α) := by
  intro d
  simp

theorem Adds.cleared_run {b : Build α} (h : Adds b) {d d' : Draft} {r : Except CompileError α}
    (hr : b.run d = (r, d')) : d'.cleared = d.cleared := by
  rw [h d] at hr
  cases hr
  exact Draft.cleared_absorb _ _

theorem adds_bind {x : Build α} {f : α → Build β} (hx : Adds x) (hf : ∀ a, Adds (f a)) :
    Adds (x >>= f) := by
  intro d
  have hd := hx d
  obtain ⟨r, n, hn⟩ : ∃ r n, x.run d.cleared = (r, n) := ⟨_, _, rfl⟩
  -- the second part starts from another draft here and there, but from the same when cleared
  have hclear : n.cleared = d.cleared := (hx.cleared_run hn).trans rfl
  rw [hn] at hd
  cases r with
  | error e => rw [Attempt.run_bind_error hd, Attempt.run_bind_error hn]
  | ok a =>
    rw [Attempt.run_bind_ok hd, Attempt.run_bind_ok hn, hf a (d.absorb n), hf a n,
      Draft.cleared_absorb, hclear, Draft.absorb_absorb]

theorem Adds.frame {b : Build α} (h : Adds b) {d d' : Draft} {r : Except CompileError α}
    (hr : b.run d = (r, d')) : d'.table = d.table ∧ d'.rename? = d.rename? := by
  rw [h d] at hr
  cases hr
  exact ⟨Draft.absorb_table _ _, Draft.absorb_rename? _ _⟩

theorem Adds.run_after {b : Build α} {b' : Build β} (h : Adds b) (h' : Adds b') {d d' : Draft}
    {r : Except CompileError α} (hr : b.run d = (r, d')) :
    b'.run d' = ((b'.run d.cleared).1, d'.absorb (b'.run d.cleared).2) := by
  rw [h' d', h.cleared_run hr]

theorem adds_absorb (nested : Draft) : Adds (Attempt.update (·.absorb nested) : Build Unit) := by
  intro d
  simp [Draft.absorb_absorb]

end Adds

/-- A path asks for joins alone, the same of any draft. -/
theorem compileMembers_run (schema : Schema) (members : List String) :
    ∀ qualifier table, ∃ result joins, ∀ d,
      (compileMembers schema qualifier table members).run d = (result, d.addJoins joins) := by
  induction members with
  | nil => exact fun qualifier table => ⟨.ok (.row qualifier), [], fun d => rfl⟩
  | cons member rest ih =>
    intro qualifier table
    unfold compileMembers
    split
    · split
      · exact ⟨_, [], fun d => rfl⟩
      · exact ⟨_, [], fun d => rfl⟩
    · split
      · exact ⟨_, [], fun d => rfl⟩
      · next parent _ =>
        split
        · exact ⟨_, [], fun d => rfl⟩
        · next target _ =>
          obtain ⟨result, joins, hj⟩ := ih (parentJoin qualifier parent target).key target
          exact ⟨result, parentJoin qualifier parent target :: joins, fun d => hj _⟩

theorem adds_compileMembers (schema : Schema) (members : List String) (qualifier : String)
    (table : Table) : Adds (compileMembers schema qualifier table members) := by
  obtain ⟨result, joins, hj⟩ := compileMembers_run schema members qualifier table
  intro d
  simp only [hj, Draft.absorb_addJoins, Draft.absorb_cleared]

theorem adds_compileReference (schema : Schema) (path : Reference) :
    Adds (compileReference schema path) := by
  unfold compileReference
  split
  · exact adds_fail _
  · next first members _ =>
    split
    · exact adds_fail _
    · next table _ =>
      intro d
      exact adds_compileMembers schema members (if first = d.table then d.root else first) table d

theorem adds_compileReduction (schema : Schema) (reducer : Reducer) (id : NodeId)
    (child : Expr NodeId) (predicate? : Option (Build Term)) :
    Adds (compileReduction schema reducer id child predicate?) := by
  intro d
  have htable : d.cleared.table = d.table := rfl
  have hroot : d.cleared.root = d.root := rfl
  simp only [compileReduction, htable, hroot]
  split
  · simp
  · split
    · simp
    · simp [Draft.absorb_addJoin, Draft.absorb_addCte, Draft.absorb_addCtes]

structure Stepwise (schema : Schema) (P : Build Term → Prop) : Prop where
  value : ∀ term, P (pure term)
  failure : ∀ error, P (Attempt.fail error)
  sequence : ∀ {x f}, P x → (∀ term, P (f term)) → P (x >>= f)
  nested : ∀ nested term, P (do Attempt.update (·.absorb nested); pure term)
  reference : ∀ path, P (compileReference schema path)
  reduction : ∀ reducer id child predicate?,
    P (compileReduction schema reducer id child predicate?)

namespace Stepwise

variable {schema : Schema} {P : Build Term → Prop}

theorem compileReducer (h : Stepwise schema P) (reducer : Reducer) (id : NodeId)
    (arguments : List (Expr NodeId × Build Term)) :
    P (compileReducer schema reducer id arguments) := by
  unfold Sql.compileReducer
  split
  · exact h.reduction _ _ _ _
  · exact h.reduction _ _ _ _
  · exact h.failure _

theorem compileSpec (h : Stepwise schema P) (inline : Inline) (name : String)
    {arguments : List (Expr NodeId × Build Term)} (ha : ∀ a ∈ arguments, P a.2) :
    P (compileSpec schema inline name arguments) := by
  unfold Sql.compileSpec
  split
  · exact h.failure _
  · split
    · refine h.sequence (ha _ (List.mem_singleton_self _)) fun term => ?_
      split
      · exact h.failure _
      · split
        · exact h.failure _
        · exact h.nested _ _
    · exact h.failure _

theorem compileCall (h : Stepwise schema P) (inline : Inline) (id : NodeId) (callee : Reference)
    {arguments : List (Expr NodeId × Build Term)} (ha : ∀ a ∈ arguments, P a.2) :
    P (compileCall schema inline id callee arguments) := by
  unfold Sql.compileCall
  split
  · exact h.failure _
  · split
    · exact h.compileReducer _ _ _
    · exact h.compileSpec _ _ ha

theorem postorder (h : Stepwise schema P) (inline : Inline) (e : Expr NodeId) :
    P (e.postorder (visit schema inline)) := by
  induction e using Expr.induction with
  | reference label path => exact h.reference path
  | binary label op left right hl hr | conjunction label left right hl hr
  | disjunction label left right hl hr =>
    exact h.sequence hl fun _ => h.sequence hr fun _ => h.value _
  | negation label child hc => exact h.sequence hc fun _ => h.value _
  | call label callee arguments ih =>
    refine h.compileCall inline label callee fun a ha => ?_
    rw [Expr.postorderAll_eq_map] at ha
    obtain ⟨e, he, rfl⟩ := List.mem_map.mp ha
    exact ih e he
  | _ => exact h.value _

end Stepwise

theorem stepwise_adds (schema : Schema) : Stepwise schema Adds where
  value := adds_pure
  failure := adds_fail
  sequence := adds_bind
  nested nested _ := adds_bind (adds_absorb nested) fun _ => adds_pure _
  reference := adds_compileReference schema
  reduction := adds_compileReduction schema

/-- What is in a draft never influences a compilation. -/
theorem adds_postorder (schema : Schema) (inline : Inline) (e : Expr NodeId) :
    Adds (e.postorder (visit schema inline)) :=
  (stepwise_adds schema).postorder inline e

end RowSpec.Sql
