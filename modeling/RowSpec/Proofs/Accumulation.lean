import Mathlib.Data.List.Induction
import RowSpec.Proofs.ReducerCalls

/-! What gathers in a draft while one expression after the other is compiled into it. What is there
already makes no difference to what a compilation comes to, and adds nothing to what it asks for.
The common table expressions stand in an order in which each is set up before it is joined, also in
the midst of a compilation and behind one that fails. -/
namespace RowSpec.Sql

section mergeBy

variable {α : Type} {key : α → String}

theorem any_key_iff {xs : List α} {k : String} :
    xs.any (key · == k) = true ↔ k ∈ xs.map key := by
  simp [List.any_eq_true]

/-- Where no key of the second list is there twice, merging is appending what is new. -/
theorem mergeBy_eq_append {xs ys : List α} (h : (ys.map key).Nodup) :
    mergeBy key xs ys = xs ++ ys.filter (key · ∉ xs.map key) := by
  induction ys using List.reverseRecOn with
  | nil => exact (List.append_nil xs).symm
  | append_singleton ys y ih =>
    rw [List.map_append, List.nodup_append] at h
    obtain ⟨hys, _, hapart⟩ := h
    have hold : key y ∉ ys.map key := by
      intro hmem
      exact hapart _ hmem _ (List.mem_singleton_self _) rfl
    have htaken : (mergeBy key xs ys).any (key · == key y) = true ↔ key y ∈ xs.map key := by
      rw [any_mergeBy, Bool.or_eq_true, any_key_iff, any_key_iff]
      exact or_iff_left hold
    rw [mergeBy_append, List.filter_append, ← List.append_assoc, ← ih hys]
    by_cases hy : key y ∈ xs.map key
    · have hnone : [y].filter (key · ∉ xs.map key) = [] := by
        simp only [List.filter_singleton, hy, not_true_eq_false, decide_false, cond_false]
      rw [mergeBy_cons_taken (htaken.mpr hy), hnone, List.append_nil]
      rfl
    · have hone : [y].filter (key · ∉ xs.map key) = [y] := by
        simp only [List.filter_singleton, hy, not_false_eq_true, decide_true, cond_true]
      rw [mergeBy_cons_free (Bool.eq_false_iff.mpr (mt htaken.mp hy)), hone]
      rfl

theorem mergeBy_self_right (xs ys : List α) :
    mergeBy key (mergeBy key xs ys) ys = mergeBy key xs ys := by
  apply mergeBy_of_taken
  intro y hy
  rw [any_mergeBy, any_key_iff.mpr (List.mem_map_of_mem hy), Bool.or_true]

end mergeBy

variable {schema : Schema} {e : Expr NodeId} {d : Draft}

/-- From a cleared draft no name and no text is asked for twice. -/
theorem Adds.nodup {α : Type} {b : Build α} (h : Adds b) (d : Draft) :
    ((b.run d.cleared).2.joins.map Join.key).Nodup ∧
      ((b.run d.cleared).2.ctes.map Cte.render).Nodup := by
  rw [h d.cleared, Draft.absorb_eq]
  constructor
  · apply nodup_mergeBy
    exact List.nodup_nil
  · apply nodup_mergeBy
    exact List.nodup_nil

/-- A compilation comes to the same whatever is in the draft, and leaves behind it what it asks of
an empty one, less what is there. So a second time it asks for nothing. -/
theorem compile_ignores_draft (schema : Schema) (e : Expr NodeId) (table : String)
    (rename? : Option String) (joins : List Join) (ctes : List Cte) :
    (compile schema e).run ⟨table, rename?, joins, ctes⟩ =
        (((compile schema e).run ⟨table, rename?, [], []⟩).1,
          { table, rename?
            joins := joins ++ ((compile schema e).run ⟨table, rename?, [], []⟩).2.joins.filter
              (·.key ∉ joins.map Join.key)
            ctes := ctes ++ ((compile schema e).run ⟨table, rename?, [], []⟩).2.ctes.filter
              (·.render ∉ ctes.map Cte.render) }) ∧
      (compile schema e).run ((compile schema e).run ⟨table, rename?, joins, ctes⟩).2 =
        (compile schema e).run ⟨table, rename?, joins, ctes⟩ := by
  have hadds := adds_compile schema e
  obtain ⟨hjoins, hctes⟩ := hadds.nodup ⟨table, rename?, joins, ctes⟩
  have hrun := hadds ⟨table, rename?, joins, ctes⟩
  constructor
  · rw [Draft.absorb_eq, mergeBy_eq_append hjoins, mergeBy_eq_append hctes] at hrun
    exact hrun
  · rw [hadds, hrun, Draft.cleared_absorb]
    simp only [Draft.absorb_eq, mergeBy_self_right]

def bodies (schema : Schema) : Nat → Inline
  | 0 => fun spec row => (.error (.endlessCalls spec.name), .ofRow spec.table row)
  | depth + 1 => fun spec row => (compileWithin schema depth spec.body).run (.ofRow spec.table row)

theorem compileWithin_eq_postorder (schema : Schema) (depth : Nat) (e : Expr NodeId) :
    compileWithin schema depth e = e.postorder (visit schema (bodies schema depth)) := by
  cases depth with
  | zero => rfl
  | succ depth => rfl

inductive Reduces (schema : Schema) (inline : Inline) (table : String) :
    Expr NodeId → Reduction → Reducer → NodeId → Term → Draft → Prop where
  | bare (label : NodeId) {callee : Reference} {reducer : Reducer} {child : Expr NodeId}
    {r : Reduction} (hr : callee.reducer? = some reducer)
    (hresolve : Reduction.resolve schema table child = .ok r) :
    Reduces schema inline table (.call label callee [child]) r reducer label
      (.test ⟨r.child.name, r.child.id⟩ .isPresent) (.ofTable r.child.name)
  | predicate (label : NodeId) {callee : Reference} {reducer : Reducer}
    {child predicate : Expr NodeId} {r : Reduction} {condition : Term} {nested : Draft}
    (hr : callee.reducer? = some reducer)
    (hresolve : Reduction.resolve schema table child = .ok r)
    (hrun : (predicate.postorder (visit schema inline)).run (.ofTable r.child.name) =
      (.ok condition, nested)) :
    Reduces schema inline table (.call label callee [child, predicate]) r reducer predicate.label
      condition nested

inductive Enters (schema : Schema) (inline : Inline) (d : Draft) :
    Expr NodeId → Draft → Draft → Prop where
  | intro (label : NodeId) {callee : Reference} {spec : Spec} {a : Expr NodeId} {found term : Term}
    {row : String} {d₁ nested : Draft} (hs : schema.callee? callee = some spec)
    (ha : (a.postorder (visit schema inline)).run d = (.ok found, d₁))
    (hrow : rowName? found.render = some row) (hi : inline spec row = (.ok term, nested)) :
    Enters schema inline d (.call label callee [a]) d₁ nested

/-- The drafts that come up while an expression is compiled into the first. A path asks for one join
after the other; a reducer hands on what its predicate has set up, sets up its own, and joins it; a
call of a spec hands on what the body has set up, then the joins. -/
inductive During (schema : Schema) (inline : Inline) : Expr NodeId → Draft → Draft → Prop where
  | start (e : Expr NodeId) (d : Draft) : During schema inline e d d
  | along (label : NodeId) {path : Reference} {part rest : List String} (d : Draft)
    (hp : path.segments = part ++ rest) :
    During schema inline (.reference label path) d ((compileReference schema ⟨part⟩).run d).2
  | first {e o : Expr NodeId} {os : List (Expr NodeId)} {d m : Draft} (ho : e.operands = o :: os)
    (h : During schema inline o d m) : During schema inline e d m
  | second {e left right : Expr NodeId} {term : Term} {d d₁ m : Draft}
    (ho : e.operands = [left, right])
    (hl : (left.postorder (visit schema inline)).run d = (.ok term, d₁))
    (h : During schema inline right d₁ m) : During schema inline e d m
  | lifting {label : NodeId} {callee : Reference} {arguments : List (Expr NodeId)} {r : Reduction}
    {reducer : Reducer} {id : NodeId} {condition : Term} {d nested : Draft} {part : List Cte}
    (h : Reduces schema inline d.table (.call label callee arguments) r reducer id condition nested)
    (hp : part <+: nested.ctes) :
    During schema inline (.call label callee arguments) d (d.addCtes part)
  | marking {label : NodeId} {callee : Reference} {arguments : List (Expr NodeId)} {r : Reduction}
    {reducer : Reducer} {id : NodeId} {condition : Term} {d nested : Draft}
    (h : Reduces schema inline d.table (.call label callee arguments) r reducer id condition
      nested) : During schema inline (.call label callee arguments) d
        ((d.addCtes nested.ctes).addCte (r.cte reducer id nested.joins condition))
  | argument (label : NodeId) {callee : Reference} {spec : Spec} {a : Expr NodeId} {d m : Draft}
    (hs : schema.callee? callee = some spec) (h : During schema inline a d m) :
    During schema inline (.call label callee [a]) d m
  | handing {label : NodeId} {callee : Reference} {arguments : List (Expr NodeId)}
    {d d₁ nested : Draft} {part : List Cte}
    (h : Enters schema inline d (.call label callee arguments) d₁ nested)
    (hp : part <+: nested.ctes) :
    During schema inline (.call label callee arguments) d (d₁.addCtes part)
  | joining {label : NodeId} {callee : Reference} {arguments : List (Expr NodeId)}
    {d d₁ nested : Draft} {part : List Join}
    (h : Enters schema inline d (.call label callee arguments) d₁ nested)
    (hp : part <+: nested.joins) :
    During schema inline (.call label callee arguments) d
      ((d₁.addCtes nested.ctes).addJoins part)
  | done (e : Expr NodeId) (d : Draft) :
    During schema inline e d ((e.postorder (visit schema inline)).run d).2

theorem reducer_cases {inline : Inline} {label : NodeId} {callee : Reference} {reducer : Reducer}
    (hr : callee.reducer? = some reducer) {arguments : List (Expr NodeId)} {d d' : Draft}
    {result : Except CompileError Term}
    (h : (compileReducer schema reducer label
      (Expr.postorderAll (visit schema inline) arguments)).run d = (result, d')) :
    d' = d ∨ ∃ r reducer id condition nested, Reduces schema inline d.table
        (.call label callee arguments) r reducer id condition nested ∧
      d' = ((d.addCtes nested.ctes).addCte
        (r.cte reducer id nested.joins condition)).addJoin (r.join id d.root) := by
  match arguments with
  | [child] =>
    simp only [Expr.postorderAll, compileReducer] at h
    cases result with
    | error error => exact Or.inl (compileReduction_of_error h)
    | ok term =>
      obtain ⟨r, condition, nested, hresolve, hrun, _, rfl⟩ := compileReduction_eq_ok h
      cases hrun
      exact Or.inr ⟨r, reducer, label, _, _, .bare label hr hresolve, rfl⟩
  | [child, predicate] =>
    simp only [Expr.postorderAll, compileReducer] at h
    cases result with
    | error error => exact Or.inl (compileReduction_of_error h)
    | ok term =>
      obtain ⟨r, condition, nested, hresolve, hrun, _, rfl⟩ := compileReduction_eq_ok h
      exact Or.inr ⟨r, reducer, predicate.label, condition, nested,
        .predicate label hr hresolve hrun, rfl⟩
  | [] | _ :: _ :: _ :: _ =>
    cases h
    exact Or.inl rfl

theorem spec_cases {inline : Inline} {label : NodeId} {callee : Reference} {name : String}
    (hname : callee.single? = some name) (hred : Reducer.ofName? name = none)
    {arguments : List (Expr NodeId)} {d d' : Draft} {result : Except CompileError Term}
    (h : (compileSpec schema inline name
      (Expr.postorderAll (visit schema inline) arguments)).run d = (result, d')) :
    d' = d ∨ (∃ a ∈ arguments, d' = ((a.postorder (visit schema inline)).run d).2) ∨
      ∃ d₁ nested, Enters schema inline d (.call label callee arguments) d₁ nested ∧
        d' = d₁.absorb nested := by
  unfold compileSpec at h
  split at h
  · cases h
    exact Or.inl rfl
  · next spec hspec =>
    have hs : schema.callee? callee = some spec := by
      obtain rfl := (Schema.spec?_eq_some hspec).2
      exact Schema.callee?_eq_some.mpr ⟨hname, hred, hspec⟩
    match arguments with
    | [a] =>
      right
      simp only [Expr.postorderAll] at h
      obtain ⟨x, d₁, ha⟩ : ∃ x d₁, (a.postorder (visit schema inline)).run d = (x, d₁) :=
        ⟨_, _, rfl⟩
      have hstop : d₁ = ((a.postorder (visit schema inline)).run d).2 := by rw [ha]
      cases x with
      | error error =>
        cases (Attempt.run_bind_error ha).symm.trans h
        exact Or.inl ⟨a, List.mem_singleton_self a, hstop⟩
      | ok found =>
        rw [Attempt.run_bind_ok ha] at h
        split at h
        · cases h
          exact Or.inl ⟨a, List.mem_singleton_self a, hstop⟩
        · next row hrow =>
          split at h
          · cases h
            exact Or.inl ⟨a, List.mem_singleton_self a, hstop⟩
          · next term nested hi =>
            cases h
            exact Or.inr ⟨d₁, nested, .intro label hs ha hrow hi, rfl⟩
    | [] | _ :: _ :: _ =>
      cases h
      exact Or.inl rfl

/-- What a call leaves behind: nothing of its own, what its argument has, or all that it asks for. -/
theorem call_cases {inline : Inline} {label : NodeId} {callee : Reference}
    {arguments : List (Expr NodeId)} {d d' : Draft} {result : Except CompileError Term}
    (h : ((Expr.call label callee arguments).postorder (visit schema inline)).run d =
      (result, d')) :
    d' = d ∨
      (∃ r reducer id condition nested, Reduces schema inline d.table
          (.call label callee arguments) r reducer id condition nested ∧
        d' = ((d.addCtes nested.ctes).addCte
          (r.cte reducer id nested.joins condition)).addJoin (r.join id d.root)) ∨
      (∃ a ∈ arguments, d' = ((a.postorder (visit schema inline)).run d).2) ∨
      ∃ d₁ nested, Enters schema inline d (.call label callee arguments) d₁ nested ∧
        d' = d₁.absorb nested := by
  simp only [Expr.postorder, visit, compileCall] at h
  split at h
  · cases h
    exact Or.inl rfl
  · next name hname =>
    split at h
    · next reducer hred =>
      have hr : callee.reducer? = some reducer :=
        (Reference.reducer?_of_single? hname).trans hred
      rcases reducer_cases hr h with hd | hreduces
      · exact Or.inl hd
      · exact Or.inr (Or.inl hreduces)
    · next hred =>
      rcases @spec_cases _ _ label _ _ hname hred _ _ _ _ h with hd | hrest
      · exact Or.inl hd
      · exact Or.inr (Or.inr hrest)

def Serves (c : Cte) (j : Join) : Prop :=
  ∃ r reducer id joins condition root,
    c = Reduction.cte r reducer id joins condition ∧ j = r.join id root

/-- What is left-joined is set up in the list, by its text. -/
def Served (ctes : List Cte) (joins : List Join) : Prop :=
  ∀ j ∈ joins, j.kind = .left → ∃ c, Serves c j ∧ c.render ∈ ctes.map Cte.render

inductive SetUpInOrder : List Cte → Prop where
  | nil : SetUpInOrder []
  | snoc {ctes : List Cte} {r : Reduction} {reducer : Reducer} {id : NodeId} {joins : List Join}
    {condition : Term} (h : SetUpInOrder ctes) (hj : Served ctes joins) :
    SetUpInOrder (ctes ++ [r.cte reducer id joins condition])

section order

variable {xs ys : List Cte} {joins : List Join}

theorem Served.mono (h : Served xs joins)
    (hsub : ∀ text ∈ xs.map Cte.render, text ∈ ys.map Cte.render) : Served ys joins := by
  intro j hj hk
  obtain ⟨c, hc, htext⟩ := h j hj hk
  exact ⟨c, hc, hsub _ htext⟩

theorem mem_render_mergeBy {text : String} : text ∈ (mergeBy Cte.render xs ys).map Cte.render ↔
    text ∈ xs.map Cte.render ∨ text ∈ ys.map Cte.render := by
  rw [← any_key_iff, any_mergeBy, Bool.or_eq_true, any_key_iff, any_key_iff]

theorem Served.addCtes (h : Served ys joins) (d : Draft) : Served (d.addCtes ys).ctes joins := by
  rw [Draft.addCtes_eq]
  exact h.mono fun text htext => mem_render_mergeBy.mpr (Or.inr htext)

/-- What is left out is there by its text, earlier still. -/
theorem SetUpInOrder.merge (hx : SetUpInOrder xs) (hy : SetUpInOrder ys) :
    SetUpInOrder (mergeBy Cte.render xs ys) := by
  induction hy with
  | nil => exact hx
  | @snoc ys r reducer id joins condition _ hj ih =>
    rw [mergeBy_append]
    cases h : (mergeBy Cte.render xs ys).any
        (·.render == (r.cte reducer id joins condition).render) with
    | true =>
      rw [mergeBy_cons_taken h]
      exact ih
    | false =>
      rw [mergeBy_cons_free h]
      apply SetUpInOrder.snoc ih
      apply hj.mono
      intro text htext
      exact mem_render_mergeBy.mpr (Or.inr htext)

theorem SetUpInOrder.of_prefix (hy : SetUpInOrder ys) (hp : xs <+: ys) : SetUpInOrder xs := by
  induction hy with
  | nil =>
    rw [List.prefix_nil.mp hp]
    exact .nil
  | snoc h hj ih =>
    rcases List.prefix_concat_iff.mp hp with rfl | hp
    · exact .snoc h hj
    · exact ih hp

/-- Every entry is of a reducer, and what it joins besides the children stands before it. -/
theorem SetUpInOrder.before (hy : SetUpInOrder ys) {before behind : List Cte} {c : Cte}
    (hc : ys = before ++ c :: behind) : ∃ r reducer id joins condition,
      c = Reduction.cte r reducer id joins condition ∧ Served before joins := by
  have hp : before ++ [c] <+: ys := ⟨behind, by simp [hc]⟩
  generalize hlist : before ++ [c] = entries at hp
  cases hy.of_prefix hp with
  | nil => simp at hlist
  | snoc _ hj =>
    obtain ⟨rfl, hone⟩ := List.append_inj' hlist rfl
    exact ⟨_, _, _, _, _, List.singleton_inj.mp hone, hj⟩

end order

structure Draft.Sound (d : Draft) : Prop where
  nodup : (d.ctes.map Cte.render).Nodup
  inOrder : SetUpInOrder d.ctes
  served : Served d.ctes d.joins

namespace Draft.Sound

theorem cleared (d : Draft) : d.cleared.Sound where
  nodup := List.nodup_nil
  inOrder := .nil
  served := by
    intro j hj
    cases hj

theorem addJoins (h : d.Sound) {joins : List Join} (hj : Served d.ctes joins) :
    (d.addJoins joins).Sound := by
  rw [addJoins_eq]
  constructor
  · exact h.nodup
  · exact h.inOrder
  · intro j hmem
    rcases mem_or_mem_of_mem_mergeBy j hmem with hold | hnew
    · exact h.served j hold
    · exact hj j hnew

theorem addCtes (h : d.Sound) {ctes : List Cte} (hc : SetUpInOrder ctes) :
    (d.addCtes ctes).Sound := by
  rw [addCtes_eq]
  constructor
  · exact nodup_mergeBy h.nodup ctes
  · exact h.inOrder.merge hc
  · exact h.served.mono fun text htext => mem_render_mergeBy.mpr (Or.inl htext)

theorem addCte (h : d.Sound) {joins : List Join} (hj : Served d.ctes joins) (r : Reduction)
    (reducer : Reducer) (id : NodeId) (condition : Term) :
    (d.addCte (r.cte reducer id joins condition)).Sound := by
  rw [addCte_eq]
  constructor
  · exact nodup_mergeBy h.nodup _
  · cases hc : d.ctes.any (·.render == (r.cte reducer id joins condition).render) with
    | true =>
      rw [mergeBy_cons_taken hc]
      exact h.inOrder
    | false =>
      rw [mergeBy_cons_free hc]
      exact h.inOrder.snoc hj
  · exact h.served.mono fun text htext => mem_render_mergeBy.mpr (Or.inl htext)

end Draft.Sound

/-- Whether it succeeds or fails, the compilation leaves a sound draft behind it. -/
def Keeps {α : Type} (b : Build α) : Prop := ∀ d : Draft, d.Sound → (b.run d).2.Sound

section Keeps

variable {α β : Type}

theorem keeps_pure (a : α) : Keeps (pure a : Build α) := by
  intro d hd
  exact hd

theorem keeps_bind {x : Build α} {f : α → Build β} (hx : Keeps x) (hf : ∀ a, Keeps (f a)) :
    Keeps (x >>= f) := by
  intro d hd
  have hd₁ := hx d hd
  obtain ⟨result, d₁, hrun⟩ : ∃ result d₁, x.run d = (result, d₁) := ⟨_, _, rfl⟩
  rw [hrun] at hd₁
  cases result with
  | error error =>
    rw [Attempt.run_bind_error hrun]
    exact hd₁
  | ok a =>
    rw [Attempt.run_bind_ok hrun]
    exact hf a d₁ hd₁

theorem Keeps.run {x : Build α} (h : Keeps x) (hd : d.Sound) {d' : Draft}
    {result : Except CompileError α} (hrun : x.run d = (result, d')) : d'.Sound := by
  have hsound := h d hd
  rwa [hrun] at hsound

end Keeps

section soundness

variable {inline : Inline} {nested : Draft}

theorem keeps_reference (schema : Schema) (path : Reference) :
    Keeps (compileReference schema path) := by
  intro d hd
  obtain ⟨result, d', hrun⟩ : ∃ result d', (compileReference schema path).run d = (result, d') :=
    ⟨_, _, rfl⟩
  rw [hrun]
  rcases compileReference_cases hrun with ⟨t, js, _, rfl, hw⟩ | ⟨_, rfl⟩
  · apply hd.addJoins
    intro j hj hk
    obtain ⟨q, p, u, rfl⟩ := hw.parents j hj
    cases hk
  · exact hd

theorem sound_marking (hd : d.Sound) (hn : nested.Sound) (r : Reduction) (reducer : Reducer)
    (id : NodeId) (condition : Term) :
    ((d.addCtes nested.ctes).addCte (r.cte reducer id nested.joins condition)).Sound := by
  apply (hd.addCtes hn.inOrder).addCte
  exact hn.served.addCtes d

theorem sound_reduced (hd : d.Sound) (hn : nested.Sound) (r : Reduction) (reducer : Reducer)
    (id : NodeId) (condition : Term) (root : String) :
    (((d.addCtes nested.ctes).addCte (r.cte reducer id nested.joins condition)).addJoin
      (r.join id root)).Sound := by
  apply @Draft.Sound.addJoins _ (sound_marking hd hn r reducer id condition) [r.join id root]
  intro j hj _
  obtain rfl := List.mem_singleton.mp hj
  refine ⟨r.cte reducer id nested.joins condition,
    ⟨r, reducer, id, nested.joins, condition, root, rfl, rfl⟩, ?_⟩
  rw [Draft.addCte_eq]
  exact mem_render_mergeBy.mpr (Or.inr (List.mem_map_of_mem (List.mem_singleton_self _)))

theorem sound_joining (hd : d.Sound) (hn : nested.Sound) {part : List Join}
    (hp : part <+: nested.joins) : ((d.addCtes nested.ctes).addJoins part).Sound := by
  apply (hd.addCtes hn.inOrder).addJoins
  apply Served.addCtes
  intro j hj
  exact hn.served j (hp.subset hj)

theorem Reduces.sound {table : String} {r : Reduction} {reducer : Reducer} {id label : NodeId}
    {callee : Reference} {arguments : List (Expr NodeId)} {condition : Term}
    (h : Reduces schema inline table (.call label callee arguments) r reducer id condition nested)
    (hrun : ∀ a ∈ arguments, Keeps (a.postorder (visit schema inline))) : nested.Sound := by
  have hblank : (Draft.ofTable r.child.name).Sound := .cleared (.ofTable r.child.name)
  cases h with
  | bare => exact hblank
  | @predicate _ _ _ child predicate _ _ _ _ _ hnested =>
    exact (hrun predicate (by simp)).run hblank hnested

theorem Enters.sound {label : NodeId} {callee : Reference} {arguments : List (Expr NodeId)}
    {d₁ : Draft} (h : Enters schema inline d (.call label callee arguments) d₁ nested)
    (hinline : ∀ spec row term nested, inline spec row = (.ok term, nested) → nested.Sound)
    (hrun : ∀ a ∈ arguments, Keeps (a.postorder (visit schema inline))) (hd : d.Sound) :
    d₁.Sound ∧ nested.Sound := by
  obtain @⟨_, _, spec, a, found, term, row, _, _, hs, ha, hrow, hi⟩ := h
  exact ⟨(hrun a (List.mem_singleton_self a)).run hd ha, hinline spec row term nested hi⟩

theorem keeps_postorder (schema : Schema) (hinline : ∀ spec row term nested,
      inline spec row = (.ok term, nested) → nested.Sound) (e : Expr NodeId) :
    Keeps (e.postorder (visit schema inline)) := by
  induction e using Expr.induction with
  | null | boolean | number | string => exact keeps_pure _
  | reference label path => exact keeps_reference schema path
  | binary label op left right hl hr | conjunction label left right hl hr
  | disjunction label left right hl hr =>
    exact keeps_bind hl fun _ => keeps_bind hr fun _ => keeps_pure _
  | negation label child hc => exact keeps_bind hc fun _ => keeps_pure _
  | call label callee arguments ih =>
    intro d hd
    obtain ⟨result, d', hrun⟩ : ∃ result d', ((Expr.call label callee arguments).postorder
        (visit schema inline)).run d = (result, d') := ⟨_, _, rfl⟩
    rw [hrun]
    rcases call_cases hrun with rfl | ⟨r, reducer, id, condition, nested, hreduces, rfl⟩ |
      ⟨a, ha, rfl⟩ | ⟨d₁, nested, henters, rfl⟩
    · exact hd
    · exact sound_reduced hd (hreduces.sound ih) r reducer id condition d.root
    · exact ih a ha d hd
    · obtain ⟨hd₁, hnested⟩ := henters.sound hinline ih hd
      exact sound_joining hd₁ hnested (List.prefix_refl _)

theorem sound_bodies (schema : Schema) (depth : Nat) : ∀ spec row term nested,
    bodies schema depth spec row = (.ok term, nested) → nested.Sound := by
  induction depth with
  | zero =>
    intro spec row term nested h
    cases h
  | succ depth ih =>
    intro spec row term nested h
    have hkeeps := keeps_postorder schema ih spec.body
    rw [← compileWithin_eq_postorder] at hkeeps
    exact hkeeps.run (.cleared (.ofRow spec.table row)) h

theorem keeps_compile (schema : Schema) (e : Expr NodeId) : Keeps (compile schema e) := by
  unfold compile
  rw [compileWithin_eq_postorder]
  exact keeps_postorder schema (sound_bodies schema _) e

/-- A draft is sound in the midst of a compilation too: whatever is joined has been set up by
then. -/
theorem During.sound {m : Draft} (h : During schema inline e d m)
    (hinline : ∀ spec row term nested, inline spec row = (.ok term, nested) → nested.Sound)
    (hd : d.Sound) : m.Sound := by
  have hkeeps := keeps_postorder schema hinline
  induction h with
  | start => exact hd
  | along label d hp => exact keeps_reference schema _ d hd
  | first _ _ ih => exact ih hd
  | second _ hl _ ih => exact ih ((hkeeps _).run hd hl)
  | lifting h hp =>
    have hnested := h.sound fun a _ => hkeeps a
    exact hd.addCtes (hnested.inOrder.of_prefix hp)
  | marking h => exact sound_marking hd (h.sound fun a _ => hkeeps a) _ _ _ _
  | argument _ _ _ ih => exact ih hd
  | handing h hp =>
    obtain ⟨hd₁, hnested⟩ := h.sound hinline (fun a _ => hkeeps a) hd
    exact hd₁.addCtes (hnested.inOrder.of_prefix hp)
  | joining h hp =>
    obtain ⟨hd₁, hnested⟩ := h.sound hinline (fun a _ => hkeeps a) hd
    exact sound_joining hd₁ hnested hp
  | done e d => exact hkeeps e d hd

end soundness

def compileAll (schema : Schema) (d : Draft) (es : List (Expr NodeId)) : Draft :=
  es.foldl (fun d e => ((compile schema e).run d).2) d

theorem sound_compileAll (schema : Schema) (hd : d.Sound) (es : List (Expr NodeId)) :
    (compileAll schema d es).Sound := by
  induction es generalizing d with
  | nil => exact hd
  | cons e es ih => exact ih (keeps_compile schema e d hd)

/-- One expression after the other is compiled into a draft that is empty at first. At every moment
of the last of them no common table expression is there twice, each joins only what stands before
it, and whatever the statement joins is set up. -/
theorem ctes_set_up_before_joined (schema : Schema) (table : String) (rename? : Option String)
    (es : List (Expr NodeId)) {e : Expr NodeId} {m : Draft}
    (h : During schema (bodies schema schema.specs.length) e
      (compileAll schema ⟨table, rename?, [], []⟩ es) m) :
    (m.ctes.map Cte.render).Nodup ∧
      (∀ before c behind, m.ctes = before ++ c :: behind → ∃ r reducer id joins condition,
        c = Reduction.cte r reducer id joins condition ∧ Served before joins) ∧
      Served m.ctes m.joins := by
  have hstart := sound_compileAll schema (.cleared ⟨table, rename?, [], []⟩) es
  have hm := h.sound (sound_bodies schema _) hstart
  refine ⟨hm.nodup, ?_, hm.served⟩
  intro before c behind hc
  exact hm.inOrder.before hc

/-- The first expression fails behind its reducer; the second calls a spec with two reducers, one in
the other, for two rows. -/
theorem ctes_set_up_before_joined_sales : ∃ failing e m,
    ((compile sales failing).run (.ofTable "Account")).1.toOption = none ∧
    During sales (bodies sales sales.specs.length) e
      (compileAll sales ⟨"Account", none, [], []⟩ [failing]) m ∧
    m.ctes.map Cte.name = ["AnnotatedAccount12", "AnnotatedAccount3", "AnnotatedUser4"] ∧
    m.joins.map Join.key = ["AnnotatedAccount12", "Account.Owner", "Account.Owner.AnnotatedUser4",
      "Account.Deputy", "Account.Deputy.AnnotatedUser4"] ∧
    (m.ctes.map Cte.render).Nodup ∧
    (∀ before c behind, m.ctes = before ++ c :: behind → ∃ r reducer id joins condition,
      c = Reduction.cte r reducer id joins condition ∧ Served before joins) ∧
    Served m.ctes m.joins := by
  have hmoment : During sales (bodies sales sales.specs.length) _ _ _ := .done
    (.conjunction ⟨22⟩ (.call ⟨19⟩ ⟨["Busy"]⟩ [.reference ⟨18⟩ ⟨["Account", "Owner"]⟩])
      (.call ⟨21⟩ ⟨["Busy"]⟩ [.reference ⟨20⟩ ⟨["Account", "Deputy"]⟩]))
    (compileAll sales ⟨"Account", none, [], []⟩ [.conjunction ⟨17⟩ (.call ⟨13⟩ ⟨["any"]⟩
      [.reference ⟨11⟩ ⟨["Contact"]⟩, .reference ⟨12⟩ ⟨["Contact", "Open"]⟩])
      (.call ⟨16⟩ ⟨["nope"]⟩ [.reference ⟨15⟩ ⟨["Account"]⟩])])
  exact ⟨_, _, _, by decide +kernel, hmoment, by decide +kernel, by decide +kernel,
    ctes_set_up_before_joined sales "Account" none _ hmoment⟩

end RowSpec.Sql
