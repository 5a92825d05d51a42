import Mathlib.Data.List.Nodup
import Mathlib.Logic.ExistsUnique
import RowSpec.Proofs.JoinRequests

/-! The common table expressions of a statement and the calls of reducers behind them. A call sets
up one expression, whatever rows it is evaluated for and however often it is come by, and the text
of the expression tells which call it is of. Its name alone does not: it is the name of a table and
a number with nothing between the two. -/
namespace RowSpec

theorem NodeId.toList_render (id : NodeId) : id.render.toList = Decimal.digits id.val.toNat := by
  unfold NodeId.render Decimal.digits
  change (Nat.repr id.val.toNat).toList = _
  simp [Nat.repr]

theorem NodeId.render_injective {a b : NodeId} (h : a.render = b.render) : a = b := by
  have hdigits : Decimal.digits a.val.toNat = Decimal.digits b.val.toNat := by
    rw [← a.toList_render, ← b.toList_render, h]
  have hnat := congrArg Decimal.ofDigits hdigits
  rw [Decimal.ofDigits_digits, Decimal.ofDigits_digits] at hnat
  obtain ⟨x⟩ := a
  obtain ⟨y⟩ := b
  exact congrArg NodeId.mk (UInt32.toNat_inj.mp hnat)

theorem NodeId.isDigit_render {id : NodeId} {c : Char} (h : c ∈ id.render.toList) :
    c.isDigit = true := by
  rw [toList_render] at h
  exact Decimal.isDigit_digits h

namespace Expr

def Reachable (schema : Schema) (e k : Expr NodeId) : Prop :=
  k ∈ e.nodes ∨ ∃ spec, e.Reaches schema spec ∧ k ∈ spec.body.nodes

def isReducerCall : Expr NodeId → Bool
  | .call _ callee _ => callee.reducer?.isSome
  | _ => false

def callNumber : Expr NodeId → NodeId
  | .call _ _ [_, predicate] => predicate.label
  | e => e.label

theorem Reaches.of_subset {schema : Schema} {e a : Expr NodeId} {spec : Spec}
    (h : a.Reaches schema spec) (hsub : ∀ x ∈ a.nodes, x ∈ e.nodes) : e.Reaches schema spec := by
  cases h with
  | direct hc => exact .direct (hc.of_subset hsub)
  | step hc rest => exact .step (hc.of_subset hsub) rest

theorem Reachable.of_subset {schema : Schema} {e a k : Expr NodeId} (h : a.Reachable schema k)
    (hsub : ∀ x ∈ a.nodes, x ∈ e.nodes) : e.Reachable schema k := by
  rcases h with hk | ⟨spec, hs, hk⟩
  · exact Or.inl (hsub k hk)
  · exact Or.inr ⟨spec, hs.of_subset hsub, hk⟩

theorem Reachable.of_body {schema : Schema} {k : Expr NodeId} {label : NodeId} {callee : Reference}
    {arguments : List (Expr NodeId)} {spec : Spec} (h : spec.body.Reachable schema k)
    (hs : schema.callee? callee = some spec) :
    (call label callee arguments).Reachable schema k := by
  have hcall : (call label callee arguments).Calls schema spec :=
    calls_of_mem (self_mem_nodes _) hs
  rcases h with hk | ⟨spec', hspec, hk⟩
  · exact Or.inr ⟨spec, .direct hcall, hk⟩
  · exact Or.inr ⟨spec', .step hcall hspec, hk⟩

end Expr

namespace Sql

variable {schema : Schema} {table table' table'' : String} {e k : Expr NodeId}

theorem Visits.trans {m : Expr NodeId} (h : Visits schema table e table' m)
    (h' : Visits schema table' m table'' k) : Visits schema table e table'' k := by
  induction h with
  | here => exact h'
  | operand ho _ ih => exact .operand ho (ih h')
  | body hs _ ih => exact .body hs (ih h')
  | predicate hr hp _ ih => exact .predicate hr hp (ih h')

/-- What is reached from a node that is compiled on the way is reached from the expression. -/
theorem Visits.lift_reachable {k' : Expr NodeId} (h : Visits schema table e table' k)
    (hk : k.Reachable schema k') : e.Reachable schema k' := by
  induction h with
  | here => exact hk
  | operand ho _ ih => exact (ih hk).of_subset (Expr.mem_nodes_operand ho)
  | body hs _ ih => exact (ih hk).of_body hs
  | predicate _ _ _ ih => exact (ih hk).of_subset (Expr.mem_nodes_argument (by simp))

theorem Visits.reachable (h : Visits schema table e table' k) : e.Reachable schema k :=
  h.lift_reachable (Or.inl (Expr.self_mem_nodes k))

/-- In an expression of checked shape every call is compiled. -/
theorem visits_of_mem (he : e.Shaped schema) {label : NodeId} {callee : Reference}
    {arguments : List (Expr NodeId)} (hk : .call label callee arguments ∈ e.nodes)
    (table : String) :
    ∃ table', Visits schema table e table' (.call label callee arguments) := by
  induction e using Expr.induction generalizing table with
  | null | boolean | number | string | reference => simp [Expr.nodes] at hk
  | binary _ _ left right hl hr | conjunction _ left right hl hr | disjunction _ left right hl hr =>
    simp only [Expr.nodes, List.mem_cons, reduceCtorEq, false_or, List.mem_append] at hk
    rcases hk with hk | hk
    · obtain ⟨table', hv⟩ := hl (he.of_subset (by simp +contextual [Expr.nodes])) hk table
      exact ⟨table', .operand (List.mem_pair.mpr (Or.inl rfl)) hv⟩
    · obtain ⟨table', hv⟩ := hr (he.of_subset (by simp +contextual [Expr.nodes])) hk table
      exact ⟨table', .operand (List.mem_pair.mpr (Or.inr rfl)) hv⟩
  | negation _ child hc =>
    simp only [Expr.nodes, List.mem_cons, reduceCtorEq, false_or] at hk
    obtain ⟨table', hv⟩ := hc (he.of_subset (by simp +contextual [Expr.nodes])) hk table
    exact ⟨table', .operand (List.mem_singleton_self _) hv⟩
  | call label' callee' arguments' ih =>
    rcases Expr.mem_nodes_call.mp hk with heq | ⟨a, ha, hka⟩
    · exact ⟨table, heq ▸ .here table _⟩
    · rcases he label' callee' arguments' (Expr.self_mem_nodes _) with
        ⟨reducer, child, predicate, path, hr, rfl, hp⟩ |
          ⟨_, _, ⟨label'', rfl⟩ | ⟨label'', path, rfl, _⟩⟩
      · rcases List.mem_pair.mp ha with rfl | rfl
        · obtain ⟨_, rfl⟩ := eq_reference_of_childPath? hp
          simp [Expr.nodes] at hka
        · have hsub := he.of_subset (Expr.mem_nodes_argument ha)
          obtain ⟨table', hv⟩ := ih a ha hsub hka path.first
          exact ⟨table', .predicate hr hp hv⟩
      · obtain rfl := List.mem_singleton.mp ha
        simp [Expr.nodes] at hka
      · obtain rfl := List.mem_singleton.mp ha
        simp [Expr.nodes] at hka

theorem visits_of_reaches (hspecs : ∀ spec ∈ schema.specs, spec.body.Shaped schema)
    (he : e.Shaped schema) {spec : Spec} (h : e.Reaches schema spec) (table : String) :
    Visits schema table e spec.table spec.body := by
  have hcall : ∀ {e : Expr NodeId} {spec}, e.Shaped schema → e.Calls schema spec → ∀ table,
      Visits schema table e spec.table spec.body := by
    intro e spec he hc table
    obtain ⟨callee, hcallee, hs⟩ := hc
    obtain ⟨label, arguments, hn⟩ := Expr.mem_callees.mp hcallee
    obtain ⟨table', hv⟩ := visits_of_mem he hn table
    exact hv.trans (.body hs (.here _ _))
  induction h generalizing table with
  | direct hc => exact hcall he hc table
  | step hc _ ih =>
    have hbody := hspecs _ (Schema.spec?_eq_some hc.spec?).1
    exact (hcall he hc table).trans (ih hbody _)

theorem visits_of_reachable (hspecs : ∀ spec ∈ schema.specs, spec.body.Shaped schema)
    (he : e.Shaped schema) (h : e.Reachable schema k) (hk : k.isReducerCall = true)
    (table : String) : ∃ table', Visits schema table e table' k := by
  cases k with
  | call label callee arguments =>
    rcases h with h | ⟨spec, hs, h⟩
    · exact visits_of_mem he h table
    · have hbody := hspecs spec (Schema.spec?_eq_some hs.spec?).1
      obtain ⟨table', hv⟩ := visits_of_mem hbody h spec.table
      exact ⟨table', (visits_of_reaches hspecs he hs table).trans hv⟩
  | _ => cases hk

/-- The nodes of an expression that are compiled for it, each with its table. The bodies of the
specs that it calls are left out. -/
def sites : String → Expr NodeId → List (String × Expr NodeId)
  | table, .binary label op left right =>
    (table, .binary label op left right) :: (sites table left ++ sites table right)
  | table, .conjunction label left right =>
    (table, .conjunction label left right) :: (sites table left ++ sites table right)
  | table, .disjunction label left right =>
    (table, .disjunction label left right) :: (sites table left ++ sites table right)
  | table, .negation label child => (table, .negation label child) :: sites table child
  | table, .call label callee [child, predicate] =>
    (table, .call label callee [child, predicate]) ::
      sites (child.childPath?.elim table Reference.first) predicate
  | table, e => [(table, e)]

theorem self_mem_sites (table : String) (e : Expr NodeId) : (table, e) ∈ sites table e := by
  unfold sites
  split <;> simp

theorem sites_sublist (table : String) (e : Expr NodeId) :
    ((sites table e).map Prod.snd).Sublist e.nodes := by
  fun_induction sites table e with
  | case1 table label op left right hl hr | case2 table label left right hl hr
  | case3 table label left right hl hr =>
    simpa [Expr.nodes] using hl.append hr
  | case4 table label child hc => simpa [Expr.nodes] using hc
  | case5 table label callee child predicate hp =>
    have hsub : predicate.nodes.Sublist (child.nodes ++ predicate.nodes) :=
      List.sublist_append_right _ _
    simpa [Expr.nodes, Expr.nodesAll] using hp.trans hsub
  | case6 table e => exact List.singleton_sublist.mpr (Expr.self_mem_nodes e)

theorem mem_nodes_of_mem_sites (h : (table', k) ∈ sites table e) : k ∈ e.nodes :=
  (sites_sublist table e).subset (List.mem_map.mpr ⟨_, h, rfl⟩)

theorem sites_operand {o : Expr NodeId} (ho : o ∈ e.operands) :
    ∀ x ∈ sites table o, x ∈ sites table e := by
  intro x hx
  cases e with
  | binary | conjunction | disjunction =>
    rcases List.mem_pair.mp ho with rfl | rfl
    · simp [sites, hx]
    · simp [sites, hx]
  | negation =>
    obtain rfl := List.mem_singleton.mp ho
    simp [sites, hx]
  | _ => cases ho

/-- A node is compiled in the expression itself or in the body of a spec. -/
theorem Visits.site (h : Visits schema table e table' k) :
    (table', k) ∈ sites table e ∨
      ∃ spec ∈ schema.specs, (table', k) ∈ sites spec.table spec.body := by
  induction h with
  | here => exact Or.inl (self_mem_sites _ _)
  | operand ho _ ih => exact ih.imp_left (sites_operand ho _)
  | @body _ _ _ _ _ spec _ hs _ ih =>
    rcases ih with hk | hk
    · exact Or.inr ⟨spec, Schema.mem_specs_of_callee? hs, hk⟩
    · exact Or.inr hk
  | predicate _ hp _ ih =>
    refine ih.imp_left fun hk => ?_
    simp [sites, hp, hk]

theorem Visits.home (h : Visits schema table e table' k) :
    ∃ x ∈ schema.homes table e, (table', k) ∈ sites x.1 x.2 := by
  rcases h.site with hk | ⟨spec, hs, hk⟩
  · exact ⟨_, List.mem_cons_self, hk⟩
  · exact ⟨_, List.mem_cons_of_mem _ (List.mem_map_of_mem hs), hk⟩

/-- Where no id is there twice, a node is compiled over one table only. -/
theorem Visits.unique {k' : Expr NodeId} (hu : Schema.Unmixed (schema.homes table e))
    (h : Visits schema table e table' k) (h' : Visits schema table e table'' k')
    (hl : k.label = k'.label) : table' = table'' ∧ k = k' := by
  obtain ⟨x, hx, hk⟩ := h.home
  obtain ⟨y, hy, hk'⟩ := h'.home
  have hid : k.label ∈ x.2.ids := List.mem_map_of_mem (mem_nodes_of_mem_sites hk)
  have hid' : k'.label ∈ y.2.ids := List.mem_map_of_mem (mem_nodes_of_mem_sites hk')
  obtain rfl := hu.apart x hx y hy k.label hid (hl ▸ hid')
  have hnodup := (hu.nodup x hx).sublist ((sites_sublist x.1 x.2).map Expr.label)
  rw [List.map_map] at hnodup
  exact Prod.mk.inj (List.inj_on_of_nodup_map hnodup hk hk' hl)

inductive SetsUp (schema : Schema) (table : String) : Expr NodeId → Cte → Prop where
  | intro (label : NodeId) {callee : Reference} {reducer : Reducer} {child predicate : Expr NodeId}
    {r : Reduction} {condition : Term} {nested : Draft} (hr : callee.reducer? = some reducer)
    (hresolve : Reduction.resolve schema table child = .ok r)
    (hrun : (compile schema predicate).run (.ofTable r.child.name) = (.ok condition, nested)) :
    SetsUp schema table (.call label callee [child, predicate])
      (r.cte reducer predicate.label nested.joins condition)

variable {c c' : Cte}

theorem SetsUp.unique (h : SetsUp schema table k c) (h' : SetsUp schema table k c') : c = c' := by
  obtain ⟨_, hr, hresolve, hrun⟩ := h
  obtain ⟨_, hr', hresolve', hrun'⟩ := h'
  cases hr.symm.trans hr'
  cases hresolve.symm.trans hresolve'
  cases hrun.symm.trans hrun'
  rfl

theorem SetsUp.named (h : SetsUp schema table k c) : (schema.table? table).isSome = true ∧
    c.body.table = table ∧ c.id.qualifier = table ∧
      c.name = "Annotated" ++ table ++ k.callNumber.render := by
  obtain ⟨_, hr, hresolve, hrun⟩ := h
  have hparent := parent_of_resolve hresolve
  obtain rfl := Schema.table?_eq_some hparent
  exact ⟨Option.isSome_of_eq_some hparent, rfl, rfl, rfl⟩

/-- The calls behind a growing list of common table expressions: nothing gets lost, nothing comes
from elsewhere, and every call among the nodes is there by its text. -/
structure Gathers (schema : Schema) (nodes : String → Expr NodeId → Prop)
    (before after : List Cte) : Prop where
  kept : ∀ c ∈ before, c ∈ after
  source : ∀ c ∈ after, c ∈ before ∨ ∃ table k, nodes table k ∧ SetsUp schema table k c
  found : ∀ table k, nodes table k → k.isReducerCall = true →
    ∃ c, SetsUp schema table k c ∧ after.any (·.render == c.render) = true

namespace Gathers

variable {nodes nodes' : String → Expr NodeId → Prop} {xs ys zs : List Cte}

theorem refl (xs : List Cte) : Gathers schema (fun _ _ => False) xs xs where
  kept _ h := h
  source _ h := Or.inl h
  found _ _ h := h.elim

theorem any_of_kept (h : Gathers schema nodes xs ys) {text : String}
    (hx : xs.any (·.render == text) = true) : ys.any (·.render == text) = true := by
  obtain ⟨c, hc, htext⟩ := List.any_eq_true.mp hx
  exact List.any_eq_true.mpr ⟨c, h.kept c hc, htext⟩

theorem trans (h : Gathers schema nodes xs ys) (h' : Gathers schema nodes' ys zs) :
    Gathers schema (fun table k => nodes table k ∨ nodes' table k) xs zs where
  kept c hc := h'.kept c (h.kept c hc)
  source c hc := by
    rcases h'.source c hc with hc | ⟨table, k, hk, hset⟩
    · rcases h.source c hc with hc | ⟨table, k, hk, hset⟩
      · exact Or.inl hc
      · exact Or.inr ⟨table, k, Or.inl hk, hset⟩
    · exact Or.inr ⟨table, k, Or.inr hk, hset⟩
  found table k hk hcall := by
    rcases hk with hk | hk
    · obtain ⟨c, hset, hany⟩ := h.found table k hk hcall
      exact ⟨c, hset, h'.any_of_kept hany⟩
    · exact h'.found table k hk hcall

theorem congr (h : Gathers schema nodes xs ys) (hto : ∀ table k, nodes table k → nodes' table k)
    (hfrom : ∀ table k, k.isReducerCall = true → nodes' table k → nodes table k) :
    Gathers schema nodes' xs ys where
  kept := h.kept
  source c hc := by
    refine (h.source c hc).imp_right ?_
    rintro ⟨table, k, hk, hset⟩
    exact ⟨table, k, hto table k hk, hset⟩
  found table k hk hcall := h.found table k (hfrom table k hcall hk) hcall

theorem merge (h : Gathers schema nodes [] ys) (xs : List Cte) :
    Gathers schema nodes xs (mergeBy Cte.render xs ys) where
  kept := subset_mergeBy xs ys
  source c hc := by
    rcases mem_or_mem_of_mem_mergeBy c hc with hc | hc
    · exact Or.inl hc
    · rcases h.source c hc with hc | hc
      · cases hc
      · exact Or.inr hc
  found table k hk hcall := by
    obtain ⟨c, hset, hany⟩ := h.found table k hk hcall
    refine ⟨c, hset, ?_⟩
    rw [any_mergeBy, hany, Bool.or_true]

theorem single (h : SetsUp schema table k c) :
    Gathers schema (fun table' k' => table' = table ∧ k' = k) [] [c] where
  kept _ hc := nomatch hc
  source _ hc := Or.inr ⟨table, k, ⟨rfl, rfl⟩, List.mem_singleton.mp hc ▸ h⟩
  found := by
    rintro _ _ ⟨rfl, rfl⟩ _
    exact ⟨c, h, by simp⟩

end Gathers

/-- Below a node that is no call, calls are compiled in its operands. -/
theorem Visits.operand_of_ne (h : Visits schema table e table' k) (hk : k.isReducerCall = true)
    (he : ∀ label callee arguments, e ≠ .call label callee arguments) :
    ∃ o ∈ e.operands, Visits schema table o table' k := by
  cases h with
  | here =>
    cases e with
    | call label callee arguments => exact absurd rfl (he label callee arguments)
    | _ => cases hk
  | operand ho rest => exact ⟨_, ho, rest⟩
  | body => exact absurd rfl (he _ _ _)
  | predicate => exact absurd rfl (he _ _ _)

theorem ne_reducer_of_callee? {callee : Reference} {spec : Spec} {reducer : Reducer}
    (hs : schema.callee? callee = some spec) : callee.reducer? ≠ some reducer := by
  obtain ⟨hname, hred, _⟩ := Schema.callee?_eq_some.mp hs
  simp [Reference.reducer?, hname, hred]

theorem compileReference_ctes {path : Reference} {d d' : Draft} {result : Except CompileError Term}
    (h : (compileReference schema path).run d = (result, d')) : d'.ctes = d.ctes := by
  rcases compileReference_cases h with ⟨_, js, _, rfl, _⟩ | ⟨_, rfl⟩
  · rw [Draft.addJoins_eq]
  · rfl

/-- A compilation that succeeds sets up just the calls that it visits. -/
theorem gathers_compile (he : Ends schema e) {d d' : Draft} {term : Term}
    (h : (compile schema e).run d = (.ok term, d')) :
    Gathers schema (Visits schema d.table e) d.ctes d'.ctes := by
  induction he generalizing d d' term with
  | @constant e term ht =>
    rw [compile_constant ht] at h
    cases h
    refine (Gathers.refl d.ctes).congr (fun _ _ => False.elim) fun table' k hk hv => ?_
    obtain ⟨o, ho, _⟩ := hv.operand_of_ne hk (by cases e <;> cases ht <;> simp)
    cases e <;> cases ht <;> cases ho
  | reference label path =>
    rw [compile_reference] at h
    rw [compileReference_ctes h]
    refine (Gathers.refl d.ctes).congr (fun _ _ => False.elim) fun table' k hk hv => ?_
    obtain ⟨o, ho, _⟩ := hv.operand_of_ne hk (by simp)
    cases ho
  | @operands e left right f hf ho _ _ hl hr =>
    rw [compile_operands hf ho] at h
    obtain ⟨l, d₁, hleft, h⟩ := Attempt.run_bind_eq_ok h
    obtain ⟨r, d₂, hright, h⟩ := Attempt.run_bind_eq_ok h
    cases h
    have htable : d₁.table = d.table := ((adds_compile schema left).frame hleft).1
    have hgather := (hl hleft).trans (hr hright)
    rw [htable] at hgather
    refine hgather.congr (fun table' k hv => ?_) fun table' k hk hv => ?_
    · rcases hv with hv | hv
      · exact .operand (by simp [ho]) hv
      · exact .operand (by simp [ho]) hv
    · obtain ⟨o, hmem, hv⟩ := hv.operand_of_ne hk (by cases e <;> cases hf <;> simp)
      rw [ho] at hmem
      rcases List.mem_pair.mp hmem with rfl | rfl
      · exact Or.inl hv
      · exact Or.inr hv
  | negation label _ ih =>
    rw [compile_negation] at h
    obtain ⟨t, d₁, hrun, h⟩ := Attempt.run_bind_eq_ok h
    cases h
    refine (ih hrun).congr (fun table' k hv => .operand (List.mem_singleton_self _) hv) ?_
    intro table' k hk hv
    obtain ⟨o, hmem, hvo⟩ := hv.operand_of_ne hk (by simp)
    obtain rfl := List.mem_singleton.mp hmem
    exact hvo
  | @reducer label callee reducer child predicate path hr hp _ ih =>
    rw [compile_reducer hr] at h
    obtain ⟨r, condition, nested, hresolve, hrun, _, hd⟩ := compileReduction_eq_ok h
    have hset := SetsUp.intro label hr hresolve hrun
    have hfirst : r.child.name = path.first := Schema.table?_eq_some (resolve_eq_ok hp hresolve)
    have hctes : d'.ctes = mergeBy Cte.render (mergeBy Cte.render d.ctes nested.ctes)
        [r.cte reducer predicate.label nested.joins condition] := by
      rw [hd, Draft.addJoin_eq, Draft.addCte_eq, Draft.addCtes_eq]
    rw [hctes]
    refine (((ih hrun).merge d.ctes).trans ((Gathers.single hset).merge _)).congr
      (fun table' k hv => ?_) fun table' k hk hv => ?_
    · rcases hv with hv | ⟨rfl, rfl⟩
      · exact .predicate hr hp (hfirst ▸ hv)
      · exact .here _ _
    · cases hv with
      | here => exact Or.inr ⟨rfl, rfl⟩
      | operand ho => cases ho
      | body hs => exact absurd hr (ne_reducer_of_callee? hs)
      | predicate _ hp' hv =>
        cases hp.symm.trans hp'
        exact Or.inl (hfirst ▸ hv)
  | specNull label label' hs =>
    rw [compile_spec_null hs] at h
    cases h
  | @spec label label' callee path spec hs hpath heq _ ih =>
    rw [heq] at h
    obtain ⟨spec', _, _, _, d₁, row, nested, hspec, hargs, hrun, _, hi, rfl⟩ := compileSpec_eq_ok h
    cases (Schema.callee?_eq_some.mp hs).2.2.symm.trans hspec
    cases hargs
    have hgather := (ih hi).merge d.ctes
    rw [Draft.absorb_eq, compileReference_ctes hrun]
    refine hgather.congr (fun table' k hv => .body hs hv) fun table' k hk hv => ?_
    cases hv with
    | here =>
      obtain ⟨reducer, hr⟩ := Option.isSome_iff_exists.mp hk
      exact absurd hr (ne_reducer_of_callee? hs)
    | operand ho => cases ho
    | body hs' hv =>
      cases hs.symm.trans hs'
      exact hv

/-- What stands before the first of two stops is the same in both readings of a text. -/
theorem append_stop_inj {stop : Char} {xs ys zs ws : List Char} (hx : stop ∉ xs) (hy : stop ∉ ys)
    (h : xs ++ stop :: zs = ys ++ stop :: ws) : xs = ys ∧ zs = ws := by
  rcases List.append_eq_append_iff.mp h with ⟨as, rfl, has⟩ | ⟨bs, rfl, hbs⟩
  · cases as with
    | nil => exact ⟨(List.append_nil _).symm, (List.cons.inj has).2⟩
    | cons a as =>
      obtain ⟨rfl, _⟩ := List.cons.inj has
      simp at hy
  · cases bs with
    | nil => exact ⟨List.append_nil _, (List.cons.inj hbs).2.symm⟩
    | cons b bs =>
      obtain ⟨rfl, _⟩ := List.cons.inj hbs
      simp at hx

/-- How the text of a common table expression begins. -/
theorem Cte.toList_render (c : Cte) : ∃ rest, c.render.toList =
    '[' :: (c.name.toList ++ ']' :: (" AS (\nSELECT ".toList ++
      ((if c.distinct then "DISTINCT ".toList else []) ++
        '[' :: (c.id.qualifier.toList ++ ']' :: rest)))) := by
  cases hd : c.distinct with
  | true =>
    simp [Cte.render, Text.joinWith, bracket, Column.render, hd]
  | false =>
    simp [Cte.render, Text.joinWith, bracket, Column.render, hd]

/-- The beginning of the text tells the name and the table. -/
theorem Cte.names_of_render (hn : ']' ∉ c.name.toList) (hn' : ']' ∉ c'.name.toList)
    (hq : ']' ∉ c.id.qualifier.toList) (hq' : ']' ∉ c'.id.qualifier.toList)
    (h : c.render = c'.render) : c.name = c'.name ∧ c.id.qualifier = c'.id.qualifier := by
  obtain ⟨rest, htext⟩ := c.toList_render
  obtain ⟨rest', htext'⟩ := c'.toList_render
  rw [h, htext', List.cons.injEq] at htext
  obtain ⟨hname, htail⟩ := append_stop_inj hn' hn htext.2
  refine ⟨String.toList_inj.mp hname.symm, ?_⟩
  have hselect := List.append_cancel_left htail
  have hid : '[' :: (c'.id.qualifier.toList ++ ']' :: rest') =
      '[' :: (c.id.qualifier.toList ++ ']' :: rest) := by
    cases hd : c.distinct <;> cases hd' : c'.distinct <;> simp [hd, hd'] at hselect ⊢ <;>
      exact hselect
  exact String.toList_inj.mp (append_stop_inj hq' hq (List.cons.inj hid).2).1.symm

theorem SetsUp.callNumber_of_render (hid : ∀ t ∈ schema.tables, IsIdentifier t.name.toList)
    {k' : Expr NodeId} (h : SetsUp schema table k c) (h' : SetsUp schema table' k' c')
    (hr : c.render = c'.render) : k.callNumber = k'.callNumber := by
  have hbracket : ∀ {table k c}, SetsUp schema table k c →
      ']' ∉ c.name.toList ∧ ']' ∉ c.id.qualifier.toList := by
    intro table k c h
    obtain ⟨hsome, _, hqualifier, hname⟩ := h.named
    obtain ⟨t, ht⟩ := Option.isSome_iff_exists.mp hsome
    have htable : ']' ∉ table.toList := by
      rw [← Schema.table?_eq_some ht]
      exact (hid t (Schema.mem_of_table? ht)).notMem (by decide)
    have hdigits : ']' ∉ k.callNumber.render.toList := by
      intro hmem
      exact absurd (NodeId.isDigit_render hmem) (by decide)
    rw [hname, hqualifier]
    simp [htable, hdigits]
  obtain ⟨hn, hq⟩ := hbracket h
  obtain ⟨hn', hq'⟩ := hbracket h'
  obtain ⟨hname, hqualifier⟩ := Cte.names_of_render hn hn' hq hq' hr
  obtain ⟨_, _, htable, hnumber⟩ := h.named
  obtain ⟨_, _, htable', hnumber'⟩ := h'.named
  rw [hnumber, hnumber', ← htable, ← htable', hqualifier, String.append_right_inj] at hname
  exact NodeId.render_injective hname

/-- Calls are numbered right behind their predicates, so the number tells the call. -/
theorem SetsUp.same_call {k' : Expr NodeId} {p p' : String}
    (hu : Schema.Unmixed (schema.homes table e))
    (hnum : ∀ x ∈ schema.homes table e, x.2.NumbersCalls) (hv : Visits schema table e p k)
    (hv' : Visits schema table e p' k') (h : SetsUp schema p k c) (h' : SetsUp schema p' k' c')
    (hn : k.callNumber = k'.callNumber) : k = k' ∧ c = c' := by
  have hbehind : ∀ {p k c}, Visits schema table e p k → SetsUp schema p k c →
      k.label.val = k.callNumber.val + 1 := by
    intro p k c hv h
    obtain ⟨x, hx, hk⟩ := hv.home
    obtain ⟨label, _, _, _⟩ := h
    exact hnum x hx label _ _ (mem_nodes_of_mem_sites hk) _ rfl
  have hlabel : k.label = k'.label := by
    have hval : k.label.val = k'.label.val := by rw [hbehind hv h, hbehind hv' h', hn]
    exact congrArg NodeId.mk hval
  obtain ⟨rfl, rfl⟩ := hv.unique hu hv' hlabel
  exact ⟨rfl, h.unique h'⟩

def Owns (schema : Schema) (table : String) (e k : Expr NodeId) (c : Cte) : Prop :=
  ∃ table', Visits schema table e table' k ∧ SetsUp schema table' k c

theorem Gathers.owned {ctes : List Cte} (h : Gathers schema (Visits schema table e) [] ctes) :
    ∀ c ∈ ctes, ∃ k, Owns schema table e k c := by
  intro c hc
  rcases h.source c hc with hc | ⟨table', k, hv, hset⟩
  · cases hc
  · exact ⟨k, table', hv, hset⟩

end Sql

open Sql

section statements

variable {s : Schema} {n m : Nat} {table : String} {e : Expr NodeId} {stmt : Statement}

theorem Schema.Yields.gathers (hy : s.Yields n m table e stmt) (hb : s.Built)
    (hc : s.check = .ok ()) : Gathers s (Visits s table e) [] stmt.ctes ∧
      (stmt.ctes.map Cte.render).Nodup := by
  obtain ⟨haccepted, hselect⟩ := hy.accepted hb hc
  obtain ⟨condition, d, hrun, rfl⟩ := select_eq_ok hselect
  have hends := ends_of_run (shaped_spec hb hc) haccepted.shaped hrun
  refine ⟨gathers_compile hends hrun, ?_⟩
  rw [adds_compile s e, Draft.absorb_eq] at hrun
  obtain ⟨_, rfl⟩ := Prod.mk.inj hrun
  refine nodup_mergeBy ?_ _
  exact List.nodup_nil

/-- One common table expression stands for each call of a reducer that is reached from the
expression of a statement, and each of them stands for one call. -/
theorem ctes_match_reducer_calls (ht : s.Took n) (hcheck : s.check = .ok ())
    (hid : ∀ t ∈ s.tables, IsIdentifier t.name.toList) (hy : s.Yields n m table e stmt)
    (hm : m < UInt32.size) :
    (stmt.ctes.map Cte.render).Nodup ∧
      (∀ k, e.Reachable s k → k.isReducerCall = true →
        ∃! c, c ∈ stmt.ctes ∧ Owns s table e k c) ∧
      ∀ c ∈ stmt.ctes, ∃! k, (e.Reachable s k ∧ k.isReducerCall = true) ∧ Owns s table e k c := by
  have hb := ht.built
  have hu := hy.unmixed ht hm
  have hnum := hy.numbersCalls hb
  have haccepted := (hy.accepted hb hcheck).1
  obtain ⟨hgather, hnodup⟩ := hy.gathers hb hcheck
  refine ⟨hnodup, fun k hk hcall => ?_, fun c hc => ?_⟩
  · obtain ⟨table', hv⟩ :=
      visits_of_reachable (Schema.shaped_spec hb hcheck) haccepted.shaped hk hcall table
    obtain ⟨c, hset, hany⟩ := hgather.found table' k hv hcall
    -- an expression of the same text is there, and it is the one of the call
    obtain ⟨c', hc', htext⟩ := List.any_eq_true.mp hany
    obtain ⟨k', table'', hv', hset'⟩ := hgather.owned c' hc'
    have hnumber := hset'.callNumber_of_render hid hset (beq_iff_eq.mp htext)
    obtain ⟨rfl, rfl⟩ := hset'.same_call hu hnum hv' hv hset hnumber
    refine ⟨c', ⟨hc', table', hv, hset⟩, ?_⟩
    rintro c ⟨_, table₀, hv₀, hset₀⟩
    exact (hset₀.same_call hu hnum hv₀ hv hset rfl).2
  · obtain ⟨k, table', hv, hset⟩ := hgather.owned c hc
    have hcall : k.isReducerCall = true := by
      obtain ⟨_, hr, _, _⟩ := hset
      exact Option.isSome_of_eq_some hr
    refine ⟨k, ⟨⟨hv.reachable, hcall⟩, table', hv, hset⟩, ?_⟩
    rintro k' ⟨_, table₀, hv₀, hset₀⟩
    have hnumber := hset₀.callNumber_of_render hid hset rfl
    exact (hset₀.same_call hu hnum hv₀ hv hset hnumber).1

def sales : Schema :=
  ((Schema.withTables [⟨"User", "Id", [⟨"Id", .number⟩], []⟩,
      ⟨"Account", "Id", [⟨"Id", .number⟩, ⟨"OwnerId", .number⟩, ⟨"DeputyId", .number⟩],
        [⟨"Owner", "User", "OwnerId"⟩, ⟨"Deputy", "User", "DeputyId"⟩]⟩,
      ⟨"Contact", "Id", [⟨"Id", .number⟩, ⟨"AccountId", .number⟩, ⟨"Open", .boolean⟩],
        [⟨"Account", "Account", "AccountId"⟩]⟩]).addSpec
    "Busy" "User" "any(Account, any(Contact, Contact.Open))").2

theorem sales_built : sales.Built := .addSpec (Schema.built_withTables _) _ _ _

theorem sales_check : sales.check = .ok () := by decide +kernel

theorem sales_statement : ∃ n m e stmt, sales.Took n ∧ sales.Yields n m "Account" e stmt ∧
    m < UInt32.size ∧ stmt.ctes.map Cte.name =
      ["AnnotatedAccount3", "AnnotatedUser4", "AnnotatedAccount12"] := by
  have hrun : (sales.compileSource "Account" ("Busy(Account.Owner) and Busy(Account.Deputy) " ++
      "and any(Contact, Contact.Open)")).1.toOption.any (fun stmt => stmt.ctes.map Cte.name =
        ["AnnotatedAccount3", "AnnotatedUser4", "AnnotatedAccount12"]) = true := by
    decide +kernel
  obtain ⟨stmt, hstmt, hnames⟩ := ok_of_any hrun
  obtain ⟨n, htook, hm⟩ : ∃ n, sales.Took n ∧ n + idsTaken sales.counter
      ("Busy(Account.Owner) and Busy(Account.Deputy) " ++ "and any(Contact, Contact.Open)") <
        UInt32.size :=
    ⟨_, .addSpec (Schema.took_of_tables (by decide)) _ (by decide) (by decide), by decide +kernel⟩
  obtain ⟨e, hy⟩ := Schema.exists_yields hstmt n
  exact ⟨n, _, e, stmt, htook, hy, hm, of_decide_eq_true hnames⟩

/-- The spec is called for two rows, but its two reducers are set up once. -/
theorem ctes_match_reducer_calls_sales : ∃ n m e stmt, sales.Took n ∧ sales.check = .ok () ∧
    (∀ t ∈ sales.tables, IsIdentifier t.name.toList) ∧ sales.Yields n m "Account" e stmt ∧
    m < UInt32.size ∧ stmt.ctes.map Cte.name =
      ["AnnotatedAccount3", "AnnotatedUser4", "AnnotatedAccount12"] ∧
    (∀ k, e.Reachable sales k → k.isReducerCall = true →
      ∃! c, c ∈ stmt.ctes ∧ Owns sales "Account" e k c) ∧
    ∀ c ∈ stmt.ctes, ∃! k, (e.Reachable sales k ∧ k.isReducerCall = true) ∧
      Owns sales "Account" e k c := by
  obtain ⟨n, m, e, stmt, htook, hy, hm, hnames⟩ := sales_statement
  have hid : ∀ t ∈ sales.tables, IsIdentifier t.name.toList := by decide +kernel
  obtain ⟨_, hcalls, hctes⟩ := ctes_match_reducer_calls htook sales_check hid hy hm
  exact ⟨n, m, e, stmt, htook, sales_check, hid, hy, hm, hnames, hcalls, hctes⟩

def AddsDigits (a b : String) : Prop :=
  ∃ ds : List Char, ds ≠ [] ∧ ds.all Char.isDigit = true ∧ b.toList = a.toList ++ ds

instance (a b : String) : Decidable (AddsDigits a b) :=
  decidable_of_iff (a.toList <+: b.toList ∧ b.toList.drop a.toList.length ≠ [] ∧
      (b.toList.drop a.toList.length).all Char.isDigit = true) (by
    constructor
    · rintro ⟨⟨ds, hds⟩, hne, hall⟩
      rw [← hds, List.drop_left] at hne hall
      exact ⟨ds, hne, hall, hds.symm⟩
    · rintro ⟨ds, hne, hall, hds⟩
      rw [hds, List.drop_left]
      exact ⟨List.prefix_append _ _, hne, hall⟩)

/-- A name and a number may be read off their concatenation in more than one way only if one name
is another with digits behind it. -/
theorem eq_or_addsDigits {a b : String} {i j : NodeId} (h : a ++ i.render = b ++ j.render) :
    i = j ∧ a = b ∨ AddsDigits a b ∨ AddsDigits b a := by
  have hdigits : ∀ {ds es : List Char} {i : NodeId}, i.render.toList = ds ++ es →
      ds.all Char.isDigit = true := by
    intro ds es i hi
    refine List.all_eq_true.mpr fun d hd => ?_
    have hmem : d ∈ i.render.toList := hi ▸ List.mem_append_left es hd
    exact NodeId.isDigit_render hmem
  have htext := congrArg String.toList h
  rw [String.toList_append, String.toList_append] at htext
  rcases List.append_eq_append_iff.mp htext with ⟨ds, hb, hi⟩ | ⟨ds, ha, hj⟩
  · by_cases hds : ds = []
    · rw [hds, List.append_nil] at hb
      obtain rfl := String.toList_inj.mp hb
      exact Or.inl ⟨NodeId.render_injective (String.append_right_inj _ |>.mp h), rfl⟩
    · exact Or.inr (Or.inl ⟨ds, hds, hdigits hi, hb⟩)
  · by_cases hds : ds = []
    · rw [hds, List.append_nil] at ha
      obtain rfl := String.toList_inj.mp ha
      exact Or.inl ⟨NodeId.render_injective (String.append_right_inj _ |>.mp h), rfl⟩
    · exact Or.inr (Or.inr ⟨ds, hds, hdigits hj, ha⟩)

/-- Common table expressions are named for their table and a call. Two of one statement get the same
name only if the name of one table is that of the other with digits behind it. -/
theorem cte_names_apart (ht : s.Took n) (hcheck : s.check = .ok ())
    (hy : s.Yields n m table e stmt) (hm : m < UInt32.size) :
    (∀ c ∈ stmt.ctes, ∃ k, e.Reachable s k ∧
        c.name = "Annotated" ++ c.body.table ++ k.callNumber.render) ∧
      (stmt.ctes.Pairwise fun c c' => c.name = c'.name →
        AddsDigits c.body.table c'.body.table ∨ AddsDigits c'.body.table c.body.table) ∧
      ((∀ t ∈ s.tables, ∀ u ∈ s.tables, ¬ AddsDigits t.name u.name) →
        (stmt.ctes.map Cte.name).Nodup) := by
  have hb := ht.built
  have hu := hy.unmixed ht hm
  have hnum := hy.numbersCalls hb
  obtain ⟨hgather, hnodup⟩ := hy.gathers hb hcheck
  have happart : stmt.ctes.Pairwise fun c c' => c.name = c'.name →
      AddsDigits c.body.table c'.body.table ∨ AddsDigits c'.body.table c.body.table := by
    refine hnodup.of_map.imp_of_mem fun {c c'} hc hc' hne hname => ?_
    obtain ⟨k, p, hv, hset⟩ := hgather.owned c hc
    obtain ⟨k', p', hv', hset'⟩ := hgather.owned c' hc'
    obtain ⟨_, htable, _, hform⟩ := hset.named
    obtain ⟨_, htable', _, hform'⟩ := hset'.named
    rw [hform, hform', String.append_assoc, String.append_assoc, String.append_right_inj] at hname
    rcases eq_or_addsDigits hname with ⟨hnumber, _⟩ | hadds
    · exact absurd (hset.same_call hu hnum hv hv' hset' hnumber).2 hne
    · rwa [htable, htable']
  refine ⟨fun c hc => ?_, happart, fun hfree => ?_⟩
  · obtain ⟨k, p, hv, hset⟩ := hgather.owned c hc
    obtain ⟨_, htable, _, hform⟩ := hset.named
    exact ⟨k, hv.reachable, htable ▸ hform⟩
  · have hregistered : ∀ c ∈ stmt.ctes, ∃ t ∈ s.tables, t.name = c.body.table := by
      intro c hc
      obtain ⟨k, p, _, hset⟩ := hgather.owned c hc
      obtain ⟨hsome, htable, _⟩ := hset.named
      obtain ⟨t, ht⟩ := Option.isSome_iff_exists.mp hsome
      exact ⟨t, Schema.mem_of_table? ht, (Schema.table?_eq_some ht).trans htable.symm⟩
    refine List.pairwise_map.mpr (happart.imp_of_mem fun {c c'} hc hc' hadds hname => ?_)
    obtain ⟨t, ht, htname⟩ := hregistered c hc
    obtain ⟨u, hu, huname⟩ := hregistered c' hc'
    rw [← htname, ← huname] at hadds
    rcases hadds hname with h | h
    · exact hfree t ht u hu h
    · exact hfree u hu t ht h

/-- Two tables of which one is named for the other with a digit behind it. -/
def branches : Schema :=
  .withTables [⟨"User", "Id", [⟨"Id", .number⟩, ⟨"Active", .boolean⟩], []⟩,
    ⟨"User1", "Id", [⟨"Id", .number⟩, ⟨"UserId", .number⟩, ⟨"Open", .boolean⟩],
      [⟨"User", "User", "UserId"⟩]⟩,
    ⟨"Leaf", "Id", [⟨"Id", .number⟩, ⟨"User1Id", .number⟩], [⟨"User1", "User1", "User1Id"⟩]⟩]

def branchesSource : String :=
  "any(User1, any(Leaf, true)) and User.Active and User.Active and User.Active and " ++
    "any(User1, User1.Open)"

theorem branches_statement : ∃ stmt,
    (branches.compileSource "User" branchesSource).1 = .ok stmt ∧
      (stmt.ctes.map fun c => (c.name, c.body.table)) =
        [("AnnotatedUser13", "User1"), ("AnnotatedUser4", "User"),
          ("AnnotatedUser13", "User")] := by
  have hrun : (branches.compileSource "User" branchesSource).1.toOption.any (fun stmt =>
      (stmt.ctes.map fun c => (c.name, c.body.table)) = [("AnnotatedUser13", "User1"),
        ("AnnotatedUser4", "User"), ("AnnotatedUser13", "User")]) = true := by
    decide +kernel
  obtain ⟨stmt, hstmt, hnames⟩ := ok_of_any hrun
  exact ⟨stmt, hstmt, of_decide_eq_true hnames⟩

/-- Call 3 over the second table and call 13 over the first come under one name. -/
theorem cte_name_taken_twice : branches.Took 0 ∧ branches.check = .ok () ∧ ∃ stmt,
    (branches.compileSource "User" branchesSource).1 = .ok stmt ∧
      ¬ (stmt.ctes.map Cte.name).Nodup := by
  obtain ⟨stmt, hstmt, hnames⟩ := branches_statement
  refine ⟨Schema.took_of_tables (by decide), by decide +kernel, stmt, hstmt, ?_⟩
  have hfirst := congrArg (List.map Prod.fst) hnames
  rw [List.map_map] at hfirst
  have hall : stmt.ctes.map Cte.name = ["AnnotatedUser13", "AnnotatedUser4", "AnnotatedUser13"] :=
    hfirst
  rw [hall]
  decide

/-- The clash is of the kind that the names of the tables allow for, and tables of other names have
none. -/
theorem cte_names_apart_branches : (∃ e m stmt, branches.Took 0 ∧ branches.check = .ok () ∧
    branches.Yields 0 m "User" e stmt ∧ m < UInt32.size ∧
    (stmt.ctes.map fun c => (c.name, c.body.table)) =
      [("AnnotatedUser13", "User1"), ("AnnotatedUser4", "User"), ("AnnotatedUser13", "User")] ∧
    stmt.ctes.Pairwise fun c c' => c.name = c'.name →
      AddsDigits c.body.table c'.body.table ∨ AddsDigits c'.body.table c.body.table) ∧
    ∃ n m e stmt, sales.Took n ∧ sales.check = .ok () ∧ sales.Yields n m "Account" e stmt ∧
      m < UInt32.size ∧ (∀ t ∈ sales.tables, ∀ u ∈ sales.tables, ¬ AddsDigits t.name u.name) ∧
      stmt.ctes.map Cte.name = ["AnnotatedAccount3", "AnnotatedUser4", "AnnotatedAccount12"] ∧
      (stmt.ctes.map Cte.name).Nodup := by
  refine ⟨?_, ?_⟩
  · obtain ⟨stmt, hstmt, hnames⟩ := branches_statement
    have htook : branches.Took 0 := Schema.took_of_tables (by decide)
    have hcheck : branches.check = .ok () := by decide +kernel
    obtain ⟨e, hy⟩ := Schema.exists_yields hstmt 0
    have hm : 0 + idsTaken branches.counter branchesSource < UInt32.size := by decide +kernel
    obtain ⟨_, hapart, _⟩ := cte_names_apart htook hcheck hy hm
    exact ⟨e, _, stmt, htook, hcheck, hy, hm, hnames, hapart⟩
  · obtain ⟨n, m, e, stmt, htook, hy, hm, hnames⟩ := sales_statement
    have hfree : ∀ t ∈ sales.tables, ∀ u ∈ sales.tables, ¬ AddsDigits t.name u.name := by
      decide +kernel
    obtain ⟨_, _, hnodup⟩ := cte_names_apart htook sales_check hy hm
    exact ⟨n, m, e, stmt, htook, sales_check, hy, hm, hfree, hnames, hnodup hfree⟩

end statements

end RowSpec
