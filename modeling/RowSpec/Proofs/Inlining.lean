import RowSpec.Proofs.CallNesting
import RowSpec.Proofs.Checking
import RowSpec.Proofs.Numerals
import RowSpec.Proofs.Registry
import RowSpec.Sql.Compile

/-! A call of a spec and the body of the spec in its place. With the path of the argument written
before every reference of the body, in place of the table of the spec, the body compiles to what the
call compiles to: the same condition, joins and common table expressions, in the same order. -/
namespace RowSpec

def Reference.rebase (path : Reference) (table : String) (base : Reference) : Reference :=
  match path.segments with
  | [] => path
  | first :: members => if first = table then ⟨base.segments ++ members⟩ else path

namespace Expr

variable {ι : Type}

mutual
/-- The expression with all its references rebased. Callees are no references. -/
def rebase (table : String) (base : Reference) : Expr ι → Expr ι
  | .reference label path => .reference label (path.rebase table base)
  | .binary label op left right =>
    .binary label op (rebase table base left) (rebase table base right)
  | .conjunction label left right =>
    .conjunction label (rebase table base left) (rebase table base right)
  | .disjunction label left right =>
    .disjunction label (rebase table base left) (rebase table base right)
  | .negation label child => .negation label (rebase table base child)
  | .call label callee arguments => .call label callee (rebaseAll table base arguments)
  | e => e

def rebaseAll (table : String) (base : Reference) : List (Expr ι) → List (Expr ι)
  | [] => []
  | e :: es => rebase table base e :: rebaseAll table base es
end

theorem rebaseAll_eq_map (table : String) (base : Reference) (es : List (Expr ι)) :
    rebaseAll table base es = es.map (rebase table base) := by
  induction es with
  | nil => rfl
  | cons e es ih => simp [rebaseAll, ih]

end Expr

namespace Sql

theorem rowName?_of_head {text : String} {c : Char} (h : text.toList.head? = some c)
    (hc : c ≠ '[') : rowName? text = none := by
  unfold rowName?
  split
  · next cs hcs =>
    rw [hcs] at h
    exact absurd (Option.some.inj h).symm hc
  · rfl

theorem head_render_number (value : Double) :
    ∃ c, value.render.toList.head? = some c ∧ c ≠ '[' := by
  match value with
  | .nan => exact ⟨'N', rfl, by decide⟩
  | .infinite false => exact ⟨'i', rfl, by decide⟩
  | .infinite true => exact ⟨'-', rfl, by decide⟩
  | .finite negative rank =>
    obtain ⟨whole, fraction, hrender, hne, hdigits, _⟩ := Double.render_finite negative rank
    obtain ⟨d, whole, rfl⟩ := List.exists_cons_of_ne_nil hne
    rw [hrender, String.toList_ofList]
    cases negative with
    | true => exact ⟨'-', rfl, by decide⟩
    | false =>
      refine ⟨d, rfl, ?_⟩
      rintro rfl
      exact absurd (hdigits '[' (by simp)) (by decide)

def Term.isPlain : Term → Bool
  | .row _ | .column _ | .test _ _ => false
  | _ => true

theorem Term.rowName?_render {t : Term} (h : t.isPlain = true) : rowName? t.render = none := by
  cases t with
  | row | column | test => cases h
  | null => rfl
  | boolean value => cases value <;> rfl
  | number value =>
    obtain ⟨c, hc, hne⟩ := head_render_number value
    exact rowName?_of_head hc hne
  | string value =>
    exact rowName?_of_head (c := '\'') (by simp [Term.render, Text.quote]) (by decide)
  | negation => exact rowName?_of_head (c := 'N') (by simp [Term.render]) (by decide)
  | _ => exact rowName?_of_head (c := '(') (by simp [Term.render]) (by decide)

/-- What is known of the row that a body is compiled for: it is reached from a draft by a path, and
every path from it is the path from the draft gone on with. -/
structure Reached (schema : Schema) (d : Draft) (base : Reference) (table : Table) (row : String)
    (joins : List Join) : Prop where
  registered : schema.table? table.name = some table
  goesOn : ∀ members (d' : Draft), d'.table = d.table → d'.rename? = d.rename? →
    (compileReference schema ⟨base.segments ++ members⟩).run d' =
      (compileMembers schema row table members).run (d'.addJoins joins)

/-- How the drafts of a body and of the rebased body end up. Without a reference nothing is asked
for; with one, the rebased body asks for the joins to the row first. -/
def Meets (joins : List Join) (start d : Draft) (e : Expr NodeId) (term : Term)
    (nested d' : Draft) : Prop :=
  (d' = d ∧ nested = start ∧ term.isPlain = true ∧
      ∀ label path, .reference label path ∉ e.nodes) ∨
    d' = (d.addJoins joins).absorb nested

def Tracks (d start : Draft) (joins : List Join) (e : Expr NodeId) (x y : Build Term) : Prop :=
  ∀ d₀, d₀.table = d.table → d₀.rename? = d.rename? →
    (∃ error nested error' d', x.run start = (.error error, nested) ∧
        y.run d₀ = (.error error', d')) ∨
      ∃ term nested d', x.run start = (.ok term, nested) ∧ y.run d₀ = (.ok term, d') ∧
        Meets joins start d₀ e term nested d'

section Tracks

variable {schema : Schema} {inline : Inline} {d : Draft} {base : Reference} {table : Table}
  {row : String} {joins : List Join} {e left right : Expr NodeId}

theorem tracks_literal {term : Term} (h : term.isPlain = true) (hn : e.nodes = [e])
    (hr : ∀ label path, e ≠ .reference label path) :
    Tracks d (.ofRow table.name row) joins e (pure term) (pure term) := by
  intro d₀ _ _
  refine Or.inr ⟨term, _, d₀, rfl, rfl, Or.inl ⟨rfl, rfl, h, ?_⟩⟩
  intro label path hm
  rw [hn] at hm
  exact hr label path (List.mem_singleton.mp hm).symm

theorem tracks_reference (h : Reached schema d base table row joins) {label : NodeId}
    {path : Reference} (hp : path.segments.head? = some table.name) :
    Tracks d (.ofRow table.name row) joins (.reference label path) (compileReference schema path)
      (compileReference schema (path.rebase table.name base)) := by
  obtain ⟨segments⟩ := path
  obtain ⟨members, rfl⟩ : ∃ members, segments = table.name :: members := by
    cases segments with
    | nil => cases hp
    | cons first members => cases hp; exact ⟨members, rfl⟩
  intro d₀ htable hrename
  obtain ⟨result, js, hrun⟩ := compileMembers_run schema members row table
  have hx : (compileReference schema ⟨table.name :: members⟩).run (.ofRow table.name row) =
      (result, (Draft.ofRow table.name row).addJoins js) := by
    have hstart : (Draft.ofRow table.name row).start ⟨table.name :: members⟩ = row := if_pos rfl
    rw [@compileReference_run schema table ⟨table.name :: members⟩ (by simp) h.registered, hstart]
    exact hrun _
  have hy : (compileReference schema
      (Reference.rebase ⟨table.name :: members⟩ table.name base)).run d₀ =
      (result, (d₀.addJoins joins).addJoins js) := by
    have hrebase : Reference.rebase ⟨table.name :: members⟩ table.name base =
        ⟨base.segments ++ members⟩ := if_pos rfl
    rw [hrebase, h.goesOn members d₀ htable hrename]
    exact hrun _
  cases result with
  | error error => exact Or.inl ⟨error, _, error, _, hx, hy⟩
  | ok term =>
    refine Or.inr ⟨term, _, _, hx, hy, Or.inr ?_⟩
    rw [Draft.absorb_addJoins, Draft.absorb_empty _ rfl rfl]

theorem Meets.trans {start d₀ d₁ d₂ n₁ n₂ : Draft} {s t term : Term} (hj : start.joins = [])
    (hc : start.ctes = []) (h₁ : Meets joins start d₀ left s n₁ d₁)
    (h₂ : Meets joins start d₁ right t n₂ d₂) (ht : term.isPlain = true)
    (he : ∀ n ∈ e.nodes, n = e ∨ n ∈ left.nodes ∨ n ∈ right.nodes)
    (hr : ∀ label path, e ≠ .reference label path) :
    Meets joins start d₀ e term (n₁.absorb n₂) d₂ := by
  rcases h₁ with ⟨rfl, rfl, _, hl⟩ | rfl
  · rcases h₂ with ⟨rfl, rfl, _, hr'⟩ | rfl
    · refine Or.inl ⟨rfl, Draft.absorb_empty _ hj hc, ht, fun label path hm => ?_⟩
      rcases he _ hm with heq | hm | hm
      · exact hr label path heq.symm
      · exact hl label path hm
      · exact hr' label path hm
    · right
      rw [Draft.absorb_absorb, Draft.absorb_empty _ hj hc]
  · rcases h₂ with ⟨rfl, rfl, _, _⟩ | rfl
    · right
      rw [Draft.absorb_empty _ hj hc]
    · right
      rw [Draft.addJoins_absorb_addJoins, Draft.absorb_absorb]

theorem tracks_operands {x x' y y' : Build Term} {f : Term → Term → Term}
    (hl : Tracks d (.ofRow table.name row) joins left x y)
    (hr : Tracks d (.ofRow table.name row) joins right x' y') (hx : Adds x) (hx' : Adds x')
    (hy : Adds y) (hf : ∀ l r, (f l r).isPlain = true)
    (he : ∀ n ∈ e.nodes, n = e ∨ n ∈ left.nodes ∨ n ∈ right.nodes)
    (hne : ∀ label path, e ≠ .reference label path) :
    Tracks d (.ofRow table.name row) joins e (do let l ← x; let r ← x'; pure (f l r))
      (do let l ← y; let r ← y'; pure (f l r)) := by
  intro d₀ htable hrename
  rcases hl d₀ htable hrename with ⟨_, _, _, _, hrx, hry⟩ | ⟨s, n₁, d₁, hrx, hry, hmeets⟩
  · exact Or.inl ⟨_, _, _, _, Attempt.run_bind_error hrx, Attempt.run_bind_error hry⟩
  obtain ⟨htable₁, hrename₁⟩ := hy.frame hry
  have hafter := hx.run_after hx' hrx
  have hclear : (Draft.ofRow table.name row).cleared = .ofRow table.name row := rfl
  rw [hclear] at hafter
  rcases hr d₁ (htable₁.trans htable) (hrename₁.trans hrename) with
    ⟨_, _, _, _, hrx', hry'⟩ | ⟨t, n₂, d₂, hrx', hry', hmeets'⟩
  · rw [hrx'] at hafter
    exact Or.inl ⟨_, _, _, _, (Attempt.run_bind_ok hrx).trans (Attempt.run_bind_error hafter),
      (Attempt.run_bind_ok hry).trans (Attempt.run_bind_error hry')⟩
  · rw [hrx'] at hafter
    exact Or.inr ⟨f s t, n₁.absorb n₂, d₂,
      (Attempt.run_bind_ok hrx).trans (Attempt.run_bind_ok hafter),
      (Attempt.run_bind_ok hry).trans (Attempt.run_bind_ok hry'),
      hmeets.trans rfl rfl hmeets' (hf s t) he hne⟩

theorem tracks_negation {label : NodeId} {child : Expr NodeId} {x y : Build Term}
    (h : Tracks d (.ofRow table.name row) joins child x y) :
    Tracks d (.ofRow table.name row) joins (.negation label child)
      (do let c ← x; pure (.negation c)) (do let c ← y; pure (.negation c)) := by
  intro d₀ htable hrename
  rcases h d₀ htable hrename with ⟨_, _, _, _, hrx, hry⟩ | ⟨t, n, d₁, hrx, hry, hmeets⟩
  · exact Or.inl ⟨_, _, _, _, Attempt.run_bind_error hrx, Attempt.run_bind_error hry⟩
  · refine Or.inr ⟨.negation t, n, d₁, Attempt.run_bind_ok hrx, Attempt.run_bind_ok hry, ?_⟩
    rcases hmeets with ⟨rfl, rfl, _, hr⟩ | rfl
    · refine Or.inl ⟨rfl, rfl, rfl, fun label path hm => ?_⟩
      exact hr label path (by simpa [Expr.nodes] using hm)
    · exact Or.inr rfl

theorem tracks_spec {label : NodeId} {callee : Reference} {name : String}
    {arguments : List (Expr NodeId)} {walk walk' : Expr NodeId → Build Term}
    (h : ∀ a ∈ arguments, Tracks d (.ofRow table.name row) joins a (walk a) (walk' a)) :
    Tracks d (.ofRow table.name row) joins (.call label callee arguments)
      (compileSpec schema inline name (arguments.map fun a => (a, walk a)))
      (compileSpec schema inline name
        (arguments.map fun a => (a.rebase table.name base, walk' a))) := by
  intro d₀ htable hrename
  unfold compileSpec
  cases schema.spec? name with
  | none => exact Or.inl ⟨_, _, _, _, rfl, rfl⟩
  | some spec =>
    match arguments with
    | [] | _ :: _ :: _ => exact Or.inl ⟨_, _, _, _, rfl, rfl⟩
    | [a] =>
      rcases h a (List.mem_singleton_self a) d₀ htable hrename with
        ⟨_, _, _, _, hrx, hry⟩ | ⟨t, n, d₁, hrx, hry, hmeets⟩
      · exact Or.inl ⟨_, _, _, _, Attempt.run_bind_error hrx, Attempt.run_bind_error hry⟩
      · simp only [List.map_cons, List.map_nil, Attempt.run_bind_ok hrx, Attempt.run_bind_ok hry]
        cases hrow : rowName? t.render with
        | none => exact Or.inl ⟨_, _, _, _, rfl, rfl⟩
        | some inner =>
          obtain ⟨result, nested, hi⟩ : ∃ result nested, inline spec inner = (result, nested) :=
            ⟨_, _, rfl⟩
          cases result with
          | error error =>
            simp only [hi]
            exact Or.inl ⟨_, _, _, _, rfl, rfl⟩
          | ok predicate =>
            simp only [hi]
            refine Or.inr ⟨predicate, n.absorb nested, d₁.absorb nested, rfl, rfl, Or.inr ?_⟩
            -- an argument without references is never taken for a row
            rcases hmeets with ⟨_, _, hplain, _⟩ | rfl
            · rw [Term.rowName?_render hplain] at hrow
              cases hrow
            · rw [Draft.absorb_absorb]

theorem tracks_call {label : NodeId} {callee : Reference} {arguments : List (Expr NodeId)}
    {walk walk' : Expr NodeId → Build Term} (hr : callee.reducer? = none)
    (h : ∀ a ∈ arguments, Tracks d (.ofRow table.name row) joins a (walk a) (walk' a)) :
    Tracks d (.ofRow table.name row) joins (.call label callee arguments)
      (compileCall schema inline label callee (arguments.map fun a => (a, walk a)))
      (compileCall schema inline label callee
        (arguments.map fun a => (a.rebase table.name base, walk' a))) := by
  unfold compileCall
  cases hname : callee.single? with
  | none => exact fun d₀ _ _ => Or.inl ⟨_, _, _, _, rfl, rfl⟩
  | some name =>
    rw [Reference.reducer?_of_single? hname] at hr
    simp only [hr]
    exact tracks_spec h

structure Rebasable (table : String) (e : Expr NodeId) : Prop where
  starts : ∀ label path, .reference label path ∈ e.nodes → path.segments.head? = some table
  calls : ∀ label callee arguments, .call label callee arguments ∈ e.nodes →
    callee.reducer? = none

theorem Rebasable.of_subset {name : String} {a : Expr NodeId} (h : Rebasable name e)
    (hsub : ∀ n ∈ a.nodes, n ∈ e.nodes) : Rebasable name a where
  starts label path hn := h.starts label path (hsub _ hn)
  calls label callee arguments hn := h.calls label callee arguments (hsub _ hn)

theorem tracks_postorder (h : Reached schema d base table row joins)
    (he : Rebasable table.name e) :
    Tracks d (.ofRow table.name row) joins e (e.postorder (visit schema inline))
      ((e.rebase table.name base).postorder (visit schema inline)) := by
  induction e using Expr.induction with
  | null | boolean | number | string => exact tracks_literal rfl rfl (by simp)
  | reference label path => exact tracks_reference h (he.starts label path (Expr.self_mem_nodes _))
  | binary label op left right hl hr | conjunction label left right hl hr
  | disjunction label left right hl hr =>
    have hleft := hl (he.of_subset (by simp +contextual [Expr.nodes]))
    have hright := hr (he.of_subset (by simp +contextual [Expr.nodes]))
    exact tracks_operands hleft hright (adds_postorder _ _ _) (adds_postorder _ _ _)
      (adds_postorder _ _ _) (fun _ _ => rfl) (by simp [Expr.nodes]) (by simp)
  | negation label child ih =>
    exact tracks_negation (ih (he.of_subset (by simp +contextual [Expr.nodes])))
  | call label callee arguments ih =>
    have htracks := @tracks_call schema inline d base table row joins label callee arguments
      (fun a => a.postorder (visit schema inline))
      (fun a => (a.rebase table.name base).postorder (visit schema inline))
      (he.calls label callee arguments (Expr.self_mem_nodes _))
      (fun a ha => ih a ha (he.of_subset (Expr.mem_nodes_argument ha)))
    simpa only [Expr.postorder, Expr.rebase, visit, Expr.postorderAll_eq_map,
      Expr.rebaseAll_eq_map, List.map_map, Function.comp_def] using htracks

end Tracks

variable {schema : Schema} {d : Draft} {s : Spec} {callee base : Reference} {n : Nat}

theorem reached_of_referenceType {name : String}
    (h : Typing.referenceType schema base = .ok (.table name)) (hne : base.segments ≠ [])
    (d : Draft) : ∃ table joins, table.name = name ∧
      Reached schema d base table (qualify (d.start base) base.segments.tail) joins := by
  obtain ⟨t, u, ht, hfollow, hu⟩ := Typing.follows_of_referenceType h
  obtain ⟨joins, hj⟩ := compileReference_append hne ht hfollow d
  refine ⟨u, joins, hu, hfollow.table? ?_, fun members d' htable hrename => hj members d' ?_⟩
  · rw [Schema.table?_eq_some ht]
    exact ht
  · simp only [Draft.start, Draft.root, htable, hrename]

theorem Reached.run {table : Table} {row : String} {joins : List Join}
    (h : Reached schema d base table row joins) :
    (compileReference schema base).run d = (.ok (.row row), d.addJoins joins) := by
  have hrun := h.goesOn [] d rfl rfl
  rwa [List.append_nil] at hrun

theorem compileWithin_call_run (hs : schema.callee? callee = some s) {row : String}
    {joins : List Join} (hrow : hasQualifier row.toList = false)
    (hbase : (compileReference schema base).run d = (.ok (.row row), d.addJoins joins))
    (id id' : NodeId) :
    (compileWithin schema (n + 1) (.call id callee [.reference id' base])).run d =
      match (compileWithin schema n s.body).run (.ofRow s.table row) with
      | (.ok term, nested) => (.ok term, (d.addJoins joins).absorb nested)
      | (.error error, _) => (.error error, d.addJoins joins) := by
  obtain ⟨hname, hred, hspec⟩ := Schema.callee?_eq_some.mp hs
  simp only [compileWithin, Expr.postorder, Expr.postorderAll, visit, compileCall, hname, hred,
    compileSpec, hspec]
  rw [Attempt.run_bind_ok hbase]
  simp only [rowName?_row hrow]
  obtain ⟨result, nested, hbody⟩ :
      ∃ r nested, (compileWithin schema n s.body).run (.ofRow s.table row) = (r, nested) :=
    ⟨_, _, rfl⟩
  cases result with
  | error error =>
    simp only [hbody]
    rfl
  | ok term =>
    simp only [hbody]
    rfl

theorem nestsWithin_body (hs : schema.callee? callee = some s)
    (h : s.body.NestsWithin schema n) {k : Nat} (hk : schema.specs.length = k + 1) :
    s.body.NestsWithin schema k := by
  have hcalls : ∀ t, (Expr.call ⟨0⟩ callee []).Calls schema t → t = s := by
    rintro t ⟨_, hm, ht⟩
    cases List.mem_singleton.mp hm
    exact Option.some.inj (ht.symm.trans hs)
  have hcall : (Expr.call ⟨0⟩ callee []).NestsWithin schema (n + 1) := by
    intro t ht
    rw [hcalls t ht]
    exact h
  have hspecs := hcall.specs
  rw [hk] at hspecs
  exact hspecs s (Expr.calls_of_mem (Expr.self_mem_nodes _) hs)

/-- The depth left to the body below the call of its spec is enough for all it calls. -/
theorem compileWithin_body (hs : schema.callee? callee = some s) {k : Nat}
    (hk : schema.specs.length = k + 1) {d' nested : Draft} {term : Term}
    (h : (compileWithin schema (k + 1) s.body).run d' = (.ok term, nested) ∨
      (compileWithin schema k s.body).run d' = (.ok term, nested)) :
    compileWithin schema k s.body = compileWithin schema (k + 1) s.body := by
  rcases h with h | h
  · exact compileWithin_congr (nestsWithin_body hs (nestsWithin_of_run_ok h) hk) (Nat.le_succ k)
  · exact compileWithin_congr (nestsWithin_of_run_ok h) (Nat.le_succ k)

/-- A call of a spec on a path to a row of its table, and the body of the spec with the path in
place of the table, both fail or both compile to the same condition with the same joins and common
table expressions. -/
theorem compile_call_rebase (hd : d.Named) (hs : schema.callee? callee = some s)
    (hreducers : ∀ callee ∈ s.body.callees, callee.reducer? = none)
    (href : s.body.references ≠ [])
    (hrefs : ∀ path ∈ s.body.references, path.segments.head? = some s.table)
    (hbase : Typing.referenceType schema base = .ok (.table s.table)) (hne : base.segments ≠ [])
    (hb : ∀ segment ∈ base.segments, '[' ∉ segment.toList) (id id' : NodeId) :
    (∃ error d₁ error' d₂,
        (compile schema (.call id callee [.reference id' base])).run d = (.error error, d₁) ∧
        (compile schema (s.body.rebase s.table base)).run d = (.error error', d₂)) ∨
      ∃ term d', (compile schema (.call id callee [.reference id' base])).run d = (.ok term, d') ∧
        (compile schema (s.body.rebase s.table base)).run d = (.ok term, d') := by
  obtain ⟨u, joins, hu, hreached⟩ := reached_of_referenceType hbase hne d
  have hrow := hasQualifier_path hne hb hd
  obtain ⟨k, hk⟩ : ∃ k, schema.specs.length = k + 1 := by
    have hmem := (Schema.spec?_eq_some (Schema.callee?_eq_some.mp hs).2.2).1
    exact Nat.exists_eq_succ_of_ne_zero (List.length_pos_of_mem hmem).ne'
  have hcall := compileWithin_call_run hs hrow hreached.run (n := k) id id'
  simp only [compile, hk]
  rw [← hu] at hcall ⊢ hrefs
  have hbody : Rebasable u.name s.body := by
    refine ⟨fun label path hm => ?_, fun label callee arguments hm => ?_⟩
    · exact hrefs path (Expr.mem_references.mpr ⟨label, hm⟩)
    · exact hreducers callee (Expr.mem_callees.mpr ⟨label, arguments, hm⟩)
  have htracks : Tracks d (.ofRow u.name (qualify (d.start base) base.segments.tail)) joins s.body
      (compileWithin schema (k + 1) s.body)
      (compileWithin schema (k + 1) (s.body.rebase u.name base)) :=
    tracks_postorder hreached hbody
  rcases htracks d rfl rfl with ⟨_, _, error', d₂, hx, hy⟩ | ⟨term, nested, d', hx, hy, hmeets⟩
  · obtain ⟨result, nested, hrun⟩ : ∃ r nested, (compileWithin schema k s.body).run
        (.ofRow u.name (qualify (d.start base) base.segments.tail)) = (r, nested) := ⟨_, _, rfl⟩
    cases result with
    | error error =>
      rw [hrun] at hcall
      exact Or.inl ⟨error, _, error', d₂, hcall, hy⟩
    | ok term =>
      rw [compileWithin_body hs hk (Or.inr hrun), hx] at hrun
      cases hrun
  · rw [compileWithin_body hs hk (Or.inl hx), hx] at hcall
    rcases hmeets with ⟨_, _, _, hnone⟩ | rfl
    · obtain ⟨path, hp⟩ := List.exists_mem_of_ne_nil _ href
      obtain ⟨label, hm⟩ := Expr.mem_references.mp hp
      exact absurd hm (hnone label path)
    · exact Or.inr ⟨term, _, hcall, hy⟩

def isLed : Spec :=
  ⟨"IsLed", "User", "User.Active and IsActive(User.Manager)",
    .conjunction ⟨5⟩ (.reference ⟨2⟩ ⟨["User", "Active"]⟩)
      (.call ⟨4⟩ ⟨["IsActive"]⟩ [.reference ⟨3⟩ ⟨["User", "Manager"]⟩])⟩

def staff : Schema :=
  let tables := Schema.withTables [
    ⟨"User", "Id", [⟨"Id", .number⟩, ⟨"Active", .boolean⟩, ⟨"ManagerId", .number⟩],
      [⟨"Manager", "User", "ManagerId"⟩]⟩,
    ⟨"Account", "Id", [⟨"Id", .number⟩, ⟨"OwnerId", .number⟩], [⟨"Owner", "User", "OwnerId"⟩]⟩]
  let active := tables.push ⟨"IsActive", "User", "User.Active", .reference ⟨1⟩ ⟨["User", "Active"]⟩⟩
  .ofRegistry { active.push isLed with counter := ⟨5⟩ }
    ((tables.indexed.push (by decide +kernel)).push (by decide +kernel))

def renamed : Draft :=
  ⟨"Account", some "A", [⟨.inner, "Account", some "B", ⟨"B", "Id"⟩, ⟨"A", "Id"⟩⟩], []⟩

theorem compile_call_rebase_staff : renamed.Named ∧ staff.callee? ⟨["IsLed"]⟩ = some isLed ∧
    Typing.referenceType staff ⟨["Account", "Owner"]⟩ = .ok (.table "User") ∧
    ∃ term d', (compile staff (.call ⟨7⟩ ⟨["IsLed"]⟩
        [.reference ⟨6⟩ ⟨["Account", "Owner"]⟩])).run renamed = (.ok term, d') ∧
      (compile staff (isLed.body.rebase "User" ⟨["Account", "Owner"]⟩)).run renamed =
        (.ok term, d') ∧
      term.render = "([A.Owner].[Active] = 1 AND [A.Owner.Manager].[Active] = 1)" ∧
      d'.joins.map Join.key = ["B", "A.Owner", "A.Owner.Manager"] := by
  have hnamed : renamed.Named := by
    intro name hname
    cases hname
    rfl
  have hspec : staff.callee? ⟨["IsLed"]⟩ = some isLed := by
    change staff.spec? "IsLed" = some isLed
    rw [staff.indexed.spec?]
    rfl
  have hbase : Typing.referenceType staff ⟨["Account", "Owner"]⟩ = .ok (.table "User") := by
    decide +kernel
  have hrun : (((compile staff (.call ⟨7⟩ ⟨["IsLed"]⟩
      [.reference ⟨6⟩ ⟨["Account", "Owner"]⟩])).run renamed).map
        (fun r => r.toOption.map Term.render) fun d => d.joins.map Join.key) =
      (some "([A.Owner].[Active] = 1 AND [A.Owner.Manager].[Active] = 1)",
        ["B", "A.Owner", "A.Owner.Manager"]) := by
    decide +kernel
  refine ⟨hnamed, hspec, hbase, ?_⟩
  rcases compile_call_rebase hnamed hspec (by decide) (by decide) (by decide) hbase (by decide)
    (by decide) ⟨7⟩ ⟨6⟩ with ⟨_, _, _, _, hx, _⟩ | ⟨term, d', hx, hy⟩
  · rw [hx] at hrun
    cases hrun
  · rw [hx] at hrun
    obtain ⟨hterm, hjoins⟩ := Prod.mk.inj hrun
    exact ⟨term, d', hx, hy, Option.some.inj hterm, hjoins⟩

end Sql

end RowSpec
