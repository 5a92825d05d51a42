import RowSpec.Proofs.JoinRequests
import RowSpec.Proofs.ReducerCalls

/-! The joins of parents. The name of a joined row is the path to it, and the path settles the whole
clause, so that a second request under the same name is the same request. A join comes behind that
of the row it starts from. The one thing that may stand under the name of a path in place of its
join is the mark of a reducer, if a parent goes by the name of a common table expression. -/
namespace RowSpec

namespace Reference

theorem render_snoc {segments : List String} (h : segments ≠ []) (hop : String) :
    render ⟨segments ++ [hop]⟩ = render ⟨segments⟩ ++ "." ++ hop := by
  unfold render
  induction segments with
  | nil => exact absurd rfl h
  | cons s ss ih =>
    cases ss with
    | nil => rfl
    | cons t ts =>
      have hrest := ih (by simp)
      simp only [List.cons_append, Text.joinWith] at hrest ⊢
      rw [hrest]
      simp only [String.append_assoc]

/-- A path of identifiers can be read off its text. -/
theorem Lexical.render_injective {path path' : Reference} (h : path.Lexical) (h' : path'.Lexical)
    (heq : path.render = path'.render) : path = path' := by
  rw [← h.ofText_render, heq, h'.ofText_render]

theorem Lexical.snoc {path : Reference} (h : path.Lexical) {hop : String}
    (hhop : IsIdentifier hop.toList) : Lexical ⟨path.segments ++ [hop]⟩ := by
  refine ⟨by simp, ?_⟩
  exact List.forall_mem_append.mpr ⟨h.2, List.forall_mem_singleton.mpr hhop⟩

theorem notMem_of_render {path : Reference} (hne : path.segments ≠ [])
    (h : '.' ∉ path.render.toList) : path.segments.tail = [] := by
  obtain ⟨segments⟩ := path
  obtain ⟨first, hops, rfl⟩ := List.exists_cons_of_ne_nil hne
  cases hops with
  | nil => rfl
  | cons hop hops => simp [toList_render, joinPoints] at h

end Reference

variable {schema : Schema}

theorem Follows.snoc {t u v : Table} {hops : List String} {hop : String} {p : Parent}
    (h : Follows schema t hops u) (hf : u.field? hop = none) (hp : u.parent? hop = some p)
    (hv : schema.table? p.table = some v) : Follows schema t (hops ++ [hop]) v := by
  induction h with
  | nil => exact .cons hf hp hv (.nil v)
  | cons hf' hp' hu' _ ih => exact .cons hf' hp' hu' (ih hf hp)

theorem Follows.unique {t u u' : Table} {hops : List String} (h : Follows schema t hops u)
    (h' : Follows schema t hops u') : u = u' := by
  induction h with
  | nil =>
    cases h'
    rfl
  | cons _ hp hu _ ih =>
    cases h' with
    | cons _ hp' hu' h' =>
      cases hp.symm.trans hp'
      cases hu.symm.trans hu'
      exact ih h'

/-- The last hop of a path is a parent of a table of the schema. -/
theorem Follows.last {t u : Table} {hops : List String} (h : Follows schema t hops u)
    (ht : t ∈ schema.tables) (hne : hops ≠ []) :
    ∃ v ∈ schema.tables, ∃ p ∈ v.parents, hops.getLast? = some p.name := by
  induction h with
  | nil => exact absurd rfl hne
  | @cons t u v hop hops p _ hp hu _ ih =>
    cases hops with
    | nil =>
      refine ⟨t, ht, p, List.mem_of_find?_eq_some hp, ?_⟩
      rw [Table.parent?_eq_some hp]
      rfl
    | cons hop' hops =>
      rw [List.getLast?_cons_cons]
      exact ih (Schema.mem_of_table? hu) (by simp)

namespace Sql

/-- The name of the rows that a path of names from a table leads to. -/
def Leads (schema : Schema) (name : String) (t : Table) : Prop :=
  ∃ (path : Reference) (start : Table), path.Lexical ∧ schema.table? path.first = some start ∧
    Follows schema start path.segments.tail t ∧ name = path.render

def ParentClause (schema : Schema) (path : Reference) (hop : String) (j : Join) : Prop :=
  path.Lexical ∧ IsIdentifier hop.toList ∧ ∃ start t u p, schema.table? path.first = some start ∧
    Follows schema start path.segments.tail t ∧ t.field? hop = none ∧ t.parent? hop = some p ∧
    schema.table? p.table = some u ∧
    j = ⟨.inner, u.name, some (path.render ++ "." ++ hop), ⟨path.render ++ "." ++ hop, u.id⟩,
      ⟨path.render, p.id⟩⟩

theorem Leads.registered {name : String} {t : Table} (h : Leads schema name t) :
    schema.table? t.name = some t := by
  obtain ⟨path, start, _, hstart, hfollow, _⟩ := h
  refine hfollow.table? ?_
  rw [Schema.table?_eq_some hstart]
  exact hstart

theorem Leads.hop {name hop : String} {t u : Table} {p : Parent} (h : Leads schema name t)
    (hhop : IsIdentifier hop.toList) (hf : t.field? hop = none) (hp : t.parent? hop = some p)
    (hu : schema.table? p.table = some u) : Leads schema (name ++ "." ++ hop) u := by
  obtain ⟨path, start, hlex, hstart, hfollow, rfl⟩ := h
  obtain ⟨segments⟩ := path
  obtain ⟨first, hops, rfl⟩ := List.exists_cons_of_ne_nil hlex.1
  exact ⟨⟨first :: (hops ++ [hop])⟩, start, hlex.snoc hhop, hstart, hfollow.snoc hf hp hu,
    (Reference.render_snoc (by simp) hop).symm⟩

theorem ParentClause.key_eq {path : Reference} {hop : String} {j : Join}
    (h : ParentClause schema path hop j) : j.key = Reference.render ⟨path.segments ++ [hop]⟩ := by
  obtain ⟨hlex, _, _, _, _, _, _, _, _, _, _, rfl⟩ := h
  rw [Reference.render_snoc hlex.1]
  rfl

/-- The name of a joined parent settles the join. -/
theorem ParentClause.unique {path path' : Reference} {hop hop' : String} {i j : Join}
    (h : ParentClause schema path hop i) (h' : ParentClause schema path' hop' j)
    (hkey : i.key = j.key) : i = j := by
  rw [h.key_eq, h'.key_eq] at hkey
  have hsegments := Reference.mk.inj ((h.1.snoc h.2.1).render_injective (h'.1.snoc h'.2.1) hkey)
  obtain ⟨hpath, hhop⟩ := List.append_inj' hsegments rfl
  obtain rfl : path = path' := congrArg Reference.mk hpath
  obtain rfl := List.singleton_inj.mp hhop
  obtain ⟨_, _, _, _, _, _, hstart, hfollow, _, hp, hv, rfl⟩ := h
  obtain ⟨_, _, _, _, _, _, hstart', hfollow', _, hp', hv', rfl⟩ := h'
  cases hstart.symm.trans hstart'
  cases hfollow.unique hfollow'
  cases hp.symm.trans hp'
  cases hv.symm.trans hv'
  rfl

theorem Leads.follows {name : String} {t u : Table} {hops : List String} (h : Leads schema name t)
    (hhops : ∀ hop ∈ hops, IsIdentifier hop.toList) (hf : Follows schema t hops u) :
    Leads schema (qualify name hops) u := by
  induction hf generalizing name with
  | nil => exact h
  | cons hf hp hu _ ih =>
    obtain ⟨hhop, hrest⟩ := List.forall_mem_cons.mp hhops
    exact ih (h.hop hhop hf hp hu) hrest

theorem Walks.clauses {name : String} {t : Table} {members : List String} {outcome : Option Term}
    {js : List Join} (h : Walks schema name t members outcome js) (hname : Leads schema name t)
    (hmembers : ∀ member ∈ members, IsIdentifier member.toList) :
    ∀ j ∈ js, ∃ path hop, ParentClause schema path hop j := by
  induction h with
  | row | field | stop => simp
  | hop hf hp hu _ ih =>
    obtain ⟨hhop, hrest⟩ := List.forall_mem_cons.mp hmembers
    refine List.forall_mem_cons.mpr ⟨?_, ih (hname.hop hhop hf hp hu) hrest⟩
    obtain ⟨path, start, hlex, hstart, hfollow, rfl⟩ := hname
    refine ⟨path, _, hlex, hhop, start, _, _, _, hstart, hfollow, hf, hp, hu, ?_⟩
    rw [← Table.parent?_eq_some hp]
    rfl

/-- The rows of the table go by its name, or by a path that leads to them. -/
def RowsOf (schema : Schema) (table root : String) : Prop :=
  root = table ∨ ∃ t, Leads schema root t ∧ t.name = table

theorem startOf_self (table : String) (path : Reference) :
    startOf table table path = path.first := by
  by_cases h : path.first = table
  · rw [startOf, if_pos h, h]
  · rw [startOf, if_neg h]

theorem RowsOf.start {table root : String} {path : Reference} {t : Table}
    (h : RowsOf schema table root) (hlex : path.Lexical) (ht : schema.table? path.first = some t) :
    Leads schema (startOf table root path) t := by
  have hfirst : Leads schema path.first t := by
    refine ⟨⟨[path.first]⟩, t, ?_, ht, .nil t, rfl⟩
    exact ⟨by simp, List.forall_mem_singleton.mpr (hlex.2 _ (Reference.first_mem hlex.1))⟩
  unfold startOf
  split
  · next htable =>
    rcases h with rfl | ⟨u, hu, rfl⟩
    · rwa [← htable]
    · rw [htable, hu.registered] at ht
      cases ht
      exact hu
  · exact hfirst

theorem RowsOf.clauses {table root : String} {path : Reference} {t : Table} {outcome : Option Term}
    {js : List Join} (h : RowsOf schema table root) (hlex : path.Lexical)
    (ht : schema.table? path.first = some t)
    (hw : Walks schema (startOf table root path) t path.segments.tail outcome js) :
    ∀ j ∈ js, ∃ path hop, ParentClause schema path hop j :=
  hw.clauses (h.start hlex ht) fun member hm => hlex.2 member (List.mem_of_mem_tail hm)

theorem Traces.clauses {table root : String} {e : Expr NodeId} {outcome : Option Term}
    {js : List Join} (hspecs : ∀ spec ∈ schema.specs, spec.body.WellFormed)
    (h : Traces schema table root e outcome js) (he : e.WellFormed)
    (hroot : RowsOf schema table root) :
    ∀ j ∈ js, j.kind = .inner → ∃ path hop, ParentClause schema path hop j := by
  induction h with
  | constant | fails => simp
  | @reference _ _ path _ _ _ label ht hw =>
    have hlex : path.Lexical := Reference.WellFormed.lexical (he _ (Expr.self_mem_nodes _))
    exact fun j hj _ => hroot.clauses hlex ht hw j hj
  | operands _ ho _ _ hl hr =>
    refine List.forall_mem_append.mpr ⟨hl ?_ hroot, hr ?_ hroot⟩
    · exact fun n hn => he n (Expr.mem_nodes_operand (by simp [ho]) n hn)
    · exact fun n hn => he n (Expr.mem_nodes_operand (by simp [ho]) n hn)
  | operand ho _ ih =>
    exact ih (fun n hn => he n (Expr.mem_nodes_operand (by simp [ho]) n hn)) hroot
  | negation _ _ ih =>
    exact ih (fun n hn => he n (Expr.mem_nodes_operand (List.mem_singleton_self _) n hn)) hroot
  | reducer =>
    refine List.forall_mem_singleton.mpr fun hkind => ?_
    cases hkind
  | @argument _ _ _ path _ _ _ _ label label' _ ht hw =>
    have hlex : path.Lexical := Reference.WellFormed.lexical
      (he (.reference label' path) (by simp [Expr.nodes, Expr.nodesAll]))
    exact fun j hj _ => hroot.clauses hlex ht hw j hj
  | @spec _ _ row _ path spec t _ _ _ label label' hs hpath ht hw _ ih =>
    have hlex : path.Lexical := Reference.WellFormed.lexical
      (he (.reference label' path) (by simp [Expr.nodes, Expr.nodesAll]))
    -- the argument is typed, so its name leads to rows of the table of the spec
    obtain ⟨t', u, ht', hfollow, hu⟩ := Typing.follows_of_referenceType hpath
    cases ht.symm.trans ht'
    obtain rfl := Term.row.inj (hw.eq_row hfollow)
    have hrow := (hroot.start hlex ht).follows
      (fun member hm => hlex.2 member (List.mem_of_mem_tail hm)) hfollow
    refine List.forall_mem_append.mpr ⟨fun j hj _ => hroot.clauses hlex ht hw j hj, ?_⟩
    exact ih (hspecs spec (Schema.mem_specs_of_callee? hs)) (Or.inr ⟨u, hrow, hu⟩)

def lastPart (name : String) : String :=
  String.ofList (name.toList.reverse.takeWhile (· != '.')).reverse

theorem lastPart_point (a b : String) : lastPart (a ++ "." ++ b) = lastPart b := by
  have hstop : ∀ cs ds : List Char,
      (cs ++ '.' :: ds).takeWhile (· != '.') = cs.takeWhile (· != '.') := by
    intro cs ds
    induction cs with
    | nil => rfl
    | cons c cs ih =>
      rw [List.cons_append, List.takeWhile_cons, List.takeWhile_cons, ih]
  have htext : (a ++ "." ++ b).toList.reverse = b.toList.reverse ++ '.' :: a.toList.reverse := by
    simp
  rw [lastPart, lastPart, htext, hstop]

theorem lastPart_append (a : String) {b : String} (h : '.' ∉ b.toList) :
    lastPart (a ++ b) = lastPart a ++ b := by
  have hall : ∀ c ∈ b.toList.reverse, (c != '.') = true := by
    intro c hc
    rw [bne_iff_ne]
    rintro rfl
    exact h (List.mem_reverse.mp hc)
  rw [lastPart, lastPart, String.toList_append, List.reverse_append,
    List.takeWhile_append_of_pos hall, List.reverse_append, List.reverse_reverse,
    String.ofList_append, String.ofList_toList]

theorem lastPart_of_notMem {name : String} (h : '.' ∉ name.toList) : lastPart name = name := by
  have hempty := lastPart_append "" h
  rwa [String.empty_append] at hempty

theorem addsDigits_render (name : String) (id : NodeId) : AddsDigits name (name ++ id.render) := by
  refine ⟨id.render.toList, ?_, ?_, String.toList_append⟩
  · rw [NodeId.toList_render]
    exact Nat.toDigits_ne_nil
  · exact List.all_eq_true.mpr fun c hc => NodeId.isDigit_render hc

end Sql

open Sql

def Schema.MarksApart (s : Schema) : Prop :=
  ∀ t ∈ s.tables, ∀ p ∈ t.parents, ∀ u ∈ s.tables,
    ¬ AddsDigits (lastPart ("Annotated" ++ u.name)) p.name

instance (s : Schema) : Decidable s.MarksApart :=
  inferInstanceAs (Decidable (∀ t ∈ s.tables, ∀ p ∈ t.parents, ∀ u ∈ s.tables,
    ¬ AddsDigits (lastPart ("Annotated" ++ u.name)) p.name))

namespace Sql

theorem IsMark.lastPart_key {j : Join} (h : IsMark schema j) :
    ∃ u ∈ schema.tables, AddsDigits (lastPart ("Annotated" ++ u.name)) (lastPart j.key) := by
  obtain ⟨r, id, root, hparent, rfl⟩ := h
  refine ⟨r.parent, hparent, ?_⟩
  have hdigits : '.' ∉ id.render.toList := by
    intro hmem
    exact absurd (NodeId.isDigit_render hmem) (by decide)
  have hkey : lastPart (r.join id root).key = lastPart (r.cteName id) := by
    unfold Reduction.join Join.key
    by_cases hroot : root = r.parent.name
    · simp [hroot]
    · simp [hroot, lastPart_point]
  rw [hkey, Reduction.cteName, lastPart_append _ hdigits]
  exact addsDigits_render _ id

/-- Where no parent is named like a mark, no mark goes by the name of a path. -/
theorem IsMark.key_ne {i : Join} (h : IsMark schema i) (hapart : schema.MarksApart)
    {path : Reference} {start u : Table} (hlex : path.Lexical)
    (hstart : schema.table? path.first = some start)
    (hfollow : Follows schema start path.segments.tail u) (htail : path.segments.tail ≠ []) :
    i.key ≠ path.render := by
  intro hkey
  obtain ⟨v, hv, p, hp, hlast⟩ := hfollow.last (Schema.mem_of_table? hstart) htail
  obtain ⟨w, hw, hadds⟩ := h.lastPart_key
  refine hapart v hv p hp w hw ?_
  have hname : lastPart path.render = p.name := by
    obtain ⟨segments⟩ := path
    obtain ⟨first, hops, rfl⟩ := List.exists_cons_of_ne_nil hlex.1
    have hhops : hops.dropLast ++ [p.name] = hops := List.dropLast_append_getLast? p.name hlast
    have hid : IsIdentifier p.name.toList :=
      hlex.2 p.name (List.mem_cons_of_mem first (List.mem_of_getLast? hlast))
    rw [← hhops, ← List.cons_append, Reference.render_snoc (by simp), lastPart_point,
      lastPart_of_notMem (hid.notMem (by decide))]
  rwa [hkey, hname] at hadds

theorem mem_nodes_of_mem_starts {e : Expr NodeId} {path : Reference} (h : path ∈ starts e) :
    ∃ label, .reference label path ∈ e.nodes := by
  fun_induction starts e with
  | case1 label p => exact ⟨label, by simp_all [Expr.nodes]⟩
  | case2 _ _ l r hl hr | case3 _ l r hl hr | case4 _ l r hl hr =>
    rcases List.mem_append.mp h with h | h
    · obtain ⟨label, hn⟩ := hl h
      exact ⟨label, by simp [Expr.nodes, hn]⟩
    · obtain ⟨label, hn⟩ := hr h
      exact ⟨label, by simp [Expr.nodes, hn]⟩
  | case5 _ child hc =>
    obtain ⟨label, hn⟩ := hc h
    exact ⟨label, by simp [Expr.nodes, hn]⟩
  | case6 _ callee argument ha =>
    obtain ⟨label, hn⟩ := ha h
    exact ⟨label, Expr.mem_nodes_argument (List.mem_singleton_self _) _ hn⟩
  | case7 => cases h

/-- A property of the nodes of an expression and of all bodies holds wherever the compiler comes. -/
theorem Visits.forall_nodes {property : Expr NodeId → Prop} {table table' : String}
    {e k : Expr NodeId} (h : Visits schema table e table' k)
    (hspecs : ∀ spec ∈ schema.specs, ∀ n ∈ spec.body.nodes, property n)
    (he : ∀ n ∈ e.nodes, property n) : ∀ n ∈ k.nodes, property n := by
  induction h with
  | here => exact he
  | operand ho _ ih => exact ih fun n hn => he n (Expr.mem_nodes_operand ho n hn)
  | body hs _ ih => exact ih (hspecs _ (Schema.mem_specs_of_callee? hs))
  | predicate _ _ _ ih => exact ih fun n hn => he n (Expr.mem_nodes_argument (by simp) n hn)

/-- Wherever the compiler comes from a checked expression it meets a checked shape again. -/
theorem Visits.shaped {table table' : String} {e k : Expr NodeId}
    (h : Visits schema table e table' k) (hb : schema.Built) (hc : schema.check = .ok ())
    (ha : Accepted schema table e) : k.WellFormed ∧ k.Shaped schema := by
  have hproperty := @Visits.forall_nodes schema (fun n => n.NodeWellFormed ∧
    ∀ label callee arguments, n = .call label callee arguments →
      Expr.CallShaped schema callee arguments) table table' e k h ?_ ?_
  · refine ⟨fun n hn => (hproperty n hn).1, fun label callee arguments hn => ?_⟩
    exact (hproperty _ hn).2 label callee arguments rfl
  · intro spec hs n hn
    have hspec := Schema.accepted_spec hb hc spec hs
    refine ⟨hspec.wellFormed n hn, ?_⟩
    rintro label callee arguments rfl
    exact hspec.shaped label callee arguments hn
  · intro n hn
    refine ⟨ha.wellFormed n hn, ?_⟩
    rintro label callee arguments rfl
    exact ha.shaped label callee arguments hn

/-- Every join of a parent is the one that its name stands for. It comes behind a join of the name
that it starts from, of which `started` holds, unless that is the name of a table. -/
def Canonical (schema : Schema) (started : Join → Prop) (joins : List Join) : Prop :=
  ∀ before j behind, joins = before ++ j :: behind → j.kind = .inner →
    ∃ path hop, ParentClause schema path hop j ∧
      (path.segments.tail ≠ [] → ∃ i ∈ before, i.key = path.render ∧ started i)

theorem canonical_of_ordered {joins : List Join}
    (hclauses : ∀ j ∈ joins, j.kind = .inner → ∃ path hop, ParentClause schema path hop j)
    (hordered : Ordered (fun kind x => kind = .left ∨ '.' ∉ x.toList) joins) :
    Canonical schema (fun _ => True) joins := by
  rintro before j behind rfl hkind
  obtain ⟨path, hop, hclause⟩ := hclauses j (by simp) hkind
  refine ⟨path, hop, hclause, fun htail => ?_⟩
  have hright : j.right.qualifier = path.render := by
    obtain ⟨_, _, _, _, _, _, _, _, _, _, _, rfl⟩ := hclause
    rfl
  rcases hordered.before with (hleft | hpoint) | ⟨i, hi, hkey⟩
  · rw [hkind] at hleft
    cases hleft
  · rw [hright] at hpoint
    exact absurd (Reference.notMem_of_render hclause.1.1 hpoint) htail
  · exact ⟨i, hi, hkey.trans hright, trivial⟩

/-- Only names of tables have no point, and paths start from these. -/
theorem ordered_points {table : String} {e : Expr NodeId} (he : Ends schema e)
    (hspecs : ∀ spec ∈ schema.specs, spec.body.WellFormed) (hw : e.WellFormed)
    {result : Except CompileError Term} {d : Draft}
    (hrun : (compile schema e).run (.ofTable table) = (result, d)) :
    Ordered (fun kind x => kind = .left ∨ '.' ∉ x.toList) d.joins := by
  have hfirst : ∀ {e : Expr NodeId}, e.WellFormed → ∀ path ∈ starts e, '.' ∉ path.first.toList := by
    intro e hw path hp
    obtain ⟨label, hn⟩ := mem_nodes_of_mem_starts hp
    have hlex : path.Lexical := Reference.WellFormed.lexical (hw _ hn)
    exact (hlex.2 _ (Reference.first_mem hlex.1)).notMem (by decide)
  refine (ordered_compile he rfl hrun (fun _ _ => Or.inl rfl) ?_ ?_ (Or.inl rfl)).1
  · exact fun spec hs path hp => Or.inr (Or.inr (hfirst (hspecs spec hs) path hp))
  · intro path hp
    change _ ∨ '.' ∉ (startOf table table path).toList
    rw [startOf_self]
    exact Or.inr (hfirst hw path hp)

/-- Where no parent is named like a mark, what a join starts from is a join of a parent. -/
theorem Canonical.apart {joins : List Join} (h : Canonical schema (fun _ => True) joins)
    (hapart : schema.MarksApart) (hmarks : ∀ j ∈ joins, j.kind = .inner ∨ IsMark schema j) :
    Canonical schema (·.kind = .inner) joins := by
  rintro before j behind rfl hkind
  obtain ⟨path, hop, hclause, hbefore⟩ := h before j behind rfl hkind
  refine ⟨path, hop, hclause, fun htail => ?_⟩
  obtain ⟨i, hi, hkey, _⟩ := hbefore htail
  refine ⟨i, hi, hkey, (hmarks i (by simp [hi])).resolve_right fun hmark => ?_⟩
  obtain ⟨hlex, _, start, t, _, _, hstart, hfollow, _⟩ := hclause
  exact hmark.key_ne hapart hlex hstart hfollow htail hkey

theorem ParentClause.key_ne {path : Reference} {hop : String} {i j : Join}
    (h : ParentClause schema path hop j) (hapart : schema.MarksApart) (hi : IsMark schema i) :
    i.key ≠ j.key := by
  rw [h.key_eq]
  obtain ⟨hlex, hhop, start, t, u, p, hstart, hfollow, hf, hp, hu, _⟩ := h
  obtain ⟨segments⟩ := path
  obtain ⟨first, hops, rfl⟩ := List.exists_cons_of_ne_nil hlex.1
  exact hi.key_ne hapart (hlex.snoc hhop) hstart (hfollow.snoc hf hp hu) (by simp)

variable {table table' : String} {e k : Expr NodeId}

/-- The joins of parents, in the statement for a checked expression and in every predicate of a
reducer that it comes by. The name of a join settles it, so the joins asked for under one name are
one; and none is left out, unless a parent is named like the mark of a reducer. -/
theorem parent_joins_canonical (hb : schema.Built) (hcheck : schema.check = .ok ())
    (hacyclic : schema.Acyclic) (ha : Accepted schema table e)
    (hv : Visits schema table e table' k) {result : Except CompileError Term} {d : Draft}
    (hrun : (compile schema k).run (.ofTable table') = (result, d)) :
    ∃ asked, Traces schema table' table' k result.toOption asked ∧
      d.joins = mergeBy Join.key [] asked ∧ Canonical schema (fun _ => True) d.joins ∧
      (∀ i ∈ asked, ∀ j ∈ asked, i.kind = .inner → j.kind = .inner → i.key = j.key → i = j) ∧
      (∀ j ∈ asked, j.kind = .inner → ∃ i ∈ d.joins, i.key = j.key ∧ (i = j ∨ i.kind = .left)) ∧
      (schema.MarksApart → Canonical schema (·.kind = .inner) d.joins ∧
        ∀ j ∈ asked, j.kind = .inner → j ∈ d.joins) := by
  obtain ⟨hwell, hshaped⟩ := hv.shaped hb hcheck ha
  have hspecs : ∀ spec ∈ schema.specs, spec.body.WellFormed :=
    fun spec hs => (Schema.accepted_spec hb hcheck spec hs).wellFormed
  have hnests : k.NestsWithin schema schema.specs.length :=
    Expr.nestsWithin_specs fun spec hs => hacyclic spec (Schema.spec?_eq_some hs.spec?).1
  have hends := ends_of_shaped (Schema.shaped_spec hb hcheck) hnests hshaped
  obtain ⟨asked, htraces, hjoins⟩ := traces_compile hends hrun
  have hjoins : d.joins = mergeBy Join.key [] asked := hjoins
  have hasked : ∀ j ∈ d.joins, j ∈ asked := hjoins ▸ mem_of_mem_mergeBy_nil
  have hclauses := htraces.clauses hspecs hwell (Or.inl rfl)
  have hunique : ∀ i ∈ asked, ∀ j ∈ asked, i.kind = .inner → j.kind = .inner → i.key = j.key →
      i = j := by
    intro i hi j hj hik hjk hkey
    obtain ⟨path, hop, hclause⟩ := hclauses i hi hik
    obtain ⟨path', hop', hclause'⟩ := hclauses j hj hjk
    exact hclause.unique hclause' hkey
  have hfound : ∀ j ∈ asked, ∃ i ∈ d.joins, i.key = j.key := by
    intro j hj
    have hkey : j.key ∈ d.joins.map Join.key := by
      rw [hjoins]
      exact mem_keys_mergeBy.mpr (Or.inr (List.mem_map_of_mem hj))
    exact List.mem_map.mp hkey
  have hcanonical := canonical_of_ordered (fun j hj => hclauses j (hasked j hj))
    (ordered_points hends hspecs hwell hrun)
  refine ⟨asked, htraces, hjoins, hcanonical, hunique, ?_, fun hapart => ⟨?_, ?_⟩⟩
  · intro j hj hkind
    obtain ⟨i, hi, hkey⟩ := hfound j hj
    cases hik : i.kind with
    | inner => exact ⟨i, hi, hkey, Or.inl (hunique i (hasked i hi) j hj hik hkind hkey)⟩
    | left => exact ⟨i, hi, hkey, Or.inr hik⟩
  · exact hcanonical.apart hapart fun j hj => htraces.kinds j (hasked j hj)
  · intro j hj hkind
    obtain ⟨i, hi, hkey⟩ := hfound j hj
    obtain ⟨path, hop, hclause⟩ := hclauses j hj hkind
    rcases htraces.kinds i (hasked i hi) with hik | hmark
    · rwa [← hunique i (hasked i hi) j hj hik hkind hkey]
    · exact absurd hkey (hclause.key_ne hapart hmark)

/-- Rows two hops away, for which two calls of a spec ask over one join of the first hop. -/
theorem parent_joins_canonical_sales : sales.Built ∧ sales.check = .ok () ∧ sales.Acyclic ∧
    sales.MarksApart ∧ ∃ e term d, Accepted sales "Contact" e ∧
      (compile sales e).run (.ofTable "Contact") = (.ok term, d) ∧
      d.joins.map (fun j => (j.kind, j.key)) =
        [(.inner, "Contact.Account"), (.inner, "Contact.Account.Owner"),
          (.left, "Contact.Account.Owner.AnnotatedUser4"), (.inner, "Contact.Account.Deputy"),
          (.left, "Contact.Account.Deputy.AnnotatedUser4")] ∧
      Canonical sales (·.kind = .inner) d.joins := by
  have hrun : (sales.compileSource "Contact"
      "Busy(Contact.Account.Owner) and Busy(Contact.Account.Deputy)").1.toOption.any (fun stmt =>
        stmt.body.joins.map (fun j => (j.kind, j.key)) =
          [(.inner, "Contact.Account"), (.inner, "Contact.Account.Owner"),
            (.left, "Contact.Account.Owner.AnnotatedUser4"), (.inner, "Contact.Account.Deputy"),
            (.left, "Contact.Account.Deputy.AnnotatedUser4")]) = true := by
    decide +kernel
  obtain ⟨stmt, hstmt, hnames⟩ := ok_of_any hrun
  have hacyclic : sales.Acyclic := by decide +kernel
  have hapart : sales.MarksApart := by decide +kernel
  obtain ⟨e, hy⟩ := Schema.exists_yields hstmt 0
  obtain ⟨haccepted, hselect⟩ := hy.accepted sales_built sales_check
  obtain ⟨term, d, hcompile, rfl⟩ := select_eq_ok hselect
  obtain ⟨_, _, _, _, _, _, hfull⟩ :=
    parent_joins_canonical sales_built sales_check hacyclic haccepted (.here _ _) hcompile
  exact ⟨sales_built, sales_check, hacyclic, hapart, e, term, d, haccepted, hcompile,
    of_decide_eq_true hnames, (hfull hapart).1⟩

def teams : Schema :=
  ((Schema.withTables [⟨"Team", "Id", [⟨"Id", .number⟩, ⟨"Open", .boolean⟩, ⟨"BossId", .number⟩],
        [⟨"Boss", "User", "BossId"⟩]⟩,
      ⟨"User", "Id", [⟨"Id", .number⟩, ⟨"Active", .boolean⟩, ⟨"TeamId", .number⟩],
        [⟨"AnnotatedUser2", "Team", "TeamId"⟩]⟩,
      ⟨"Account", "Id", [⟨"Id", .number⟩, ⟨"OwnerId", .number⟩, ⟨"Open", .boolean⟩],
        [⟨"Owner", "User", "OwnerId"⟩]⟩]).addSpec
    "HasOpen" "User" "any(Account, Account.Open)").2

/-- The join of the team is left out, for its name is taken by the mark of a reducer. -/
theorem parent_join_left_out : teams.Built ∧ teams.check = .ok () ∧ teams.Acyclic ∧ ∃ stmt,
    (teams.compileSource "Account"
      "HasOpen(Account.Owner) and Account.Owner.AnnotatedUser2.Boss.Active").1 = .ok stmt ∧
    stmt.body.joins.map (fun j => (j.kind, j.key)) =
      [(.inner, "Account.Owner"), (.left, "Account.Owner.AnnotatedUser2"),
        (.inner, "Account.Owner.AnnotatedUser2.Boss")] ∧
    ¬ Canonical teams (·.kind = .inner) stmt.body.joins := by
  have hrun : (teams.compileSource "Account"
      "HasOpen(Account.Owner) and Account.Owner.AnnotatedUser2.Boss.Active").1.toOption.any
        (fun stmt => stmt.body.joins.map (fun j => (j.kind, j.key)) =
          [(.inner, "Account.Owner"), (.left, "Account.Owner.AnnotatedUser2"),
            (.inner, "Account.Owner.AnnotatedUser2.Boss")]) = true := by
    decide +kernel
  obtain ⟨stmt, hstmt, hnames⟩ := ok_of_any hrun
  have hnames := of_decide_eq_true hnames
  refine ⟨.addSpec (Schema.built_withTables _) _ _ _, by decide +kernel,
    by decide +kernel, stmt, hstmt, hnames, fun hcanonical => ?_⟩
  obtain ⟨a, _, hjoins, ha, hnames⟩ := List.map_eq_cons_iff.mp hnames
  obtain ⟨b, _, rfl, hb, hnames⟩ := List.map_eq_cons_iff.mp hnames
  obtain ⟨c, _, rfl, hc, hnames⟩ := List.map_eq_cons_iff.mp hnames
  obtain ⟨path, hop, hclause, hbefore⟩ := hcanonical [a, b] c _ hjoins (Prod.mk.inj hc).1
  -- the path that the last join starts from can be read off its name
  have hpath : (⟨path.segments ++ [hop]⟩ : Reference) =
      ⟨["Account", "Owner", "AnnotatedUser2"] ++ ["Boss"]⟩ := by
    refine (hclause.1.snoc hclause.2.1).render_injective ⟨by simp, by decide⟩ ?_
    rw [← hclause.key_eq, (Prod.mk.inj hc).2]
    rfl
  have hsegments := (List.append_inj' (Reference.mk.inj hpath) rfl).1
  obtain ⟨i, hi, hkey, hkind⟩ := hbefore (by simp [hsegments])
  rw [Reference.render, hsegments] at hkey
  rcases List.mem_pair.mp hi with rfl | rfl
  · rw [(Prod.mk.inj ha).2] at hkey
    exact absurd hkey (by decide)
  · rw [(Prod.mk.inj hb).1] at hkind
    cases hkind

end Sql

end RowSpec
