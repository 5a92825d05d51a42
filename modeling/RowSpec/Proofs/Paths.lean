import RowSpec.Proofs.Drafts
import RowSpec.Typing

/-! Paths through the tables of a schema. Where typing follows a path the compiler follows it too:
over a number of parents, each of which is joined, to a row or to one field of it. The name of a row
is the name that the path starts from with the parents behind it, and can be told from any other
term by its text. -/
namespace RowSpec

theorem Schema.table?_eq_some {schema : Schema} {name : String} {t : Table}
    (h : schema.table? name = some t) : t.name = name := by
  rw [schema.indexed.table?] at h
  simpa using List.find?_some h

theorem Schema.mem_of_table? {schema : Schema} {name : String} {t : Table}
    (h : schema.table? name = some t) : t ∈ schema.tables := by
  rw [schema.indexed.table?] at h
  exact List.mem_of_find?_eq_some h

theorem Table.parent?_eq_some {t : Table} {name : String} {p : Parent}
    (h : t.parent? name = some p) : p.name = name := by
  simpa using List.find?_some h

theorem Reference.first_mem {path : Reference} (h : path.segments ≠ []) :
    path.first ∈ path.segments := by
  obtain ⟨segments⟩ := path
  obtain ⟨first, members, rfl⟩ := List.exists_cons_of_ne_nil h
  exact List.mem_cons_self

inductive Follows (schema : Schema) : Table → List String → Table → Prop where
  | nil (t : Table) : Follows schema t [] t
  | cons {t u v : Table} {hop : String} {hops : List String} {p : Parent}
    (hf : t.field? hop = none) (hp : t.parent? hop = some p) (ht : schema.table? p.table = some u)
    (rest : Follows schema u hops v) : Follows schema t (hop :: hops) v

variable {schema : Schema} {t u : Table} {hops : List String}

theorem Follows.table? (h : Follows schema t hops u) (ht : schema.table? t.name = some t) :
    schema.table? u.name = some u := by
  induction h with
  | nil t => exact ht
  | cons _ _ hu _ ih =>
    refine ih ?_
    rw [Schema.table?_eq_some hu]
    exact hu

namespace Typing

theorem memberType_eq_ok {path : Reference} {members : List String} {ty : Ty}
    (h : memberType schema path t members = .ok ty) : ∃ hops u, Follows schema t hops u ∧
      (members = hops ∧ ty = .table u.name ∨
        ∃ member field, members = hops ++ [member] ∧ u.field? member = some field ∧
          ty = field.type.ty) := by
  induction members generalizing t with
  | nil => exact ⟨[], t, .nil t, Or.inl ⟨rfl, (Except.ok.inj h).symm⟩⟩
  | cons member rest ih =>
    unfold memberType at h
    split at h
    · next field hf =>
      split at h
      · next hrest =>
        refine ⟨[], t, .nil t, Or.inr ⟨member, field, ?_, hf, (Except.ok.inj h).symm⟩⟩
        rw [hrest, List.nil_append]
      · cases h
    · next hf =>
      split at h
      · cases h
      · next p hp =>
        split at h
        · cases h
        · next v hv =>
          obtain ⟨hops, u, hfollow, hend⟩ := ih h
          refine ⟨member :: hops, u, .cons hf hp hv hfollow, ?_⟩
          rcases hend with ⟨rfl, hty⟩ | ⟨last, field, rfl, hfield, hty⟩
          · exact Or.inl ⟨rfl, hty⟩
          · exact Or.inr ⟨last, field, rfl, hfield, hty⟩

theorem follows_of_memberType {path : Reference} {members : List String} {name : String}
    (h : memberType schema path t members = .ok (.table name)) :
    ∃ u, Follows schema t members u ∧ u.name = name := by
  obtain ⟨hops, u, hfollow, ⟨rfl, hty⟩ | ⟨_, field, _, _, hty⟩⟩ := memberType_eq_ok h
  · exact ⟨u, hfollow, (Ty.table.inj hty).symm⟩
  · cases hf : field.type <;> rw [hf] at hty <;> cases hty

end Typing

namespace Sql

def qualify (qualifier : String) (hops : List String) : String :=
  hops.foldl (fun name hop => name ++ "." ++ hop) qualifier

theorem compileMembers_append (h : Follows schema t hops u) (qualifier : String) :
    ∃ joins, ∀ rest d, (compileMembers schema qualifier t (hops ++ rest)).run d =
      (compileMembers schema (qualify qualifier hops) u rest).run (d.addJoins joins) := by
  induction h generalizing qualifier with
  | nil t => exact ⟨[], fun rest d => rfl⟩
  | @cons t u v hop hops p hf hp ht _ ih =>
    obtain ⟨joins, hj⟩ := ih (parentJoin qualifier p u).key
    refine ⟨parentJoin qualifier p u :: joins, fun rest d => ?_⟩
    have hstep : (compileMembers schema qualifier t (hop :: (hops ++ rest))).run d =
        (compileMembers schema (parentJoin qualifier p u).key u (hops ++ rest)).run
          (d.addJoin (parentJoin qualifier p u)) := by
      simp only [compileMembers, hf, hp, ht]
      rfl
    have hkey : (parentJoin qualifier p u).key = qualifier ++ "." ++ hop := by
      rw [← Table.parent?_eq_some hp]
      rfl
    rw [List.cons_append, hstep, hj, hkey]
    rfl

theorem compileMembers_follows (h : Follows schema t hops u) (qualifier : String) :
    ∃ joins, ∀ d, (compileMembers schema qualifier t hops).run d =
      (.ok (.row (qualify qualifier hops)), d.addJoins joins) := by
  obtain ⟨joins, hj⟩ := compileMembers_append h qualifier
  refine ⟨joins, fun d => ?_⟩
  have hrun := hj [] d
  rwa [List.append_nil] at hrun

theorem compileMembers_of_memberType {path : Reference} {members : List String} {ty : Ty}
    (h : Typing.memberType schema path t members = .ok ty) (qualifier : String) (d : Draft) :
    ∃ term d', (compileMembers schema qualifier t members).run d = (.ok term, d') := by
  obtain ⟨hops, u, hfollow, ⟨rfl, _⟩ | ⟨member, field, rfl, hfield, _⟩⟩ := Typing.memberType_eq_ok h
  · obtain ⟨joins, hj⟩ := compileMembers_follows hfollow qualifier
    exact ⟨_, _, hj d⟩
  · obtain ⟨joins, hj⟩ := compileMembers_append hfollow qualifier
    refine ⟨fieldTerm (qualify qualifier hops) field, d.addJoins joins, ?_⟩
    rw [hj]
    simp [compileMembers, hfield]

def Draft.start (d : Draft) (path : Reference) : String :=
  if path.first = d.table then d.root else path.first

theorem compileReference_run {path : Reference} (hne : path.segments ≠ [])
    (ht : schema.table? path.first = some t) (d : Draft) :
    (compileReference schema path).run d =
      (compileMembers schema (d.start path) t path.segments.tail).run d := by
  obtain ⟨segments⟩ := path
  obtain ⟨first, members, rfl⟩ := List.exists_cons_of_ne_nil hne
  have ht' : schema.table? first = some t := ht
  simp only [compileReference, ht']
  rfl

/-- A path to a row may be gone on with from the row. -/
theorem compileReference_append {path : Reference} (hne : path.segments ≠ [])
    (ht : schema.table? path.first = some t) (h : Follows schema t path.segments.tail u)
    (d : Draft) : ∃ joins, ∀ rest (d' : Draft), d'.start path = d.start path →
      (compileReference schema ⟨path.segments ++ rest⟩).run d' =
        (compileMembers schema (qualify (d.start path) path.segments.tail) u rest).run
          (d'.addJoins joins) := by
  obtain ⟨joins, hj⟩ := compileMembers_append h (d.start path)
  refine ⟨joins, fun rest d' hstart => ?_⟩
  obtain ⟨segments⟩ := path
  obtain ⟨first, members, rfl⟩ := List.exists_cons_of_ne_nil hne
  have hrun := @compileReference_run schema t ⟨first :: (members ++ rest)⟩ (by simp) ht d'
  rw [← hj, ← hstart]
  exact hrun

theorem compileReference_unknown {path : Reference} (hne : path.segments ≠ [])
    (ht : schema.table? path.first = none) (d : Draft) :
    (compileReference schema path).run d = (.error (.unknownTable path.first), d) := by
  obtain ⟨segments⟩ := path
  obtain ⟨first, members, rfl⟩ := List.exists_cons_of_ne_nil hne
  have ht' : schema.table? first = none := ht
  simp only [compileReference, ht']
  rfl

theorem hasQualifier_of_notMem {cs : List Char} (h : '[' ∉ cs) : hasQualifier cs = false := by
  fun_induction hasQualifier cs with
  | case1 => rfl
  | case2 => simp at h
  | case3 c cs _ ih => exact ih fun hm => h (List.mem_cons_of_mem c hm)

theorem hasQualifier_point {q seg : List Char} (hq : hasQualifier q = false) (hs : '[' ∉ seg) :
    hasQualifier (q ++ '.' :: seg) = false := by
  fun_induction hasQualifier q with
  | case1 => exact hasQualifier_of_notMem (by simpa using hs)
  | case2 => cases hq
  | case3 c cs hne ih =>
    rw [List.cons_append, hasQualifier]
    · exact ih hq
    · -- a qualifier that spans the two texts would need the bracket of a segment
      intro tail hc htail
      match cs with
      | [] =>
        obtain ⟨_, hseg⟩ := List.cons.inj htail
        exact hs (by simp [hseg])
      | [_] =>
        obtain ⟨_, hseg⟩ := List.cons.inj htail
        exact absurd (List.cons.inj hseg).1 (by decide)
      | a :: b :: cs =>
        obtain ⟨ha, hb⟩ := List.cons.inj htail
        obtain ⟨hb, _⟩ := List.cons.inj hb
        exact hne cs hc (by rw [ha, hb])

theorem hasQualifier_qualify {qualifier : String} (hq : hasQualifier qualifier.toList = false)
    (h : ∀ hop ∈ hops, '[' ∉ hop.toList) :
    hasQualifier (qualify qualifier hops).toList = false := by
  induction hops generalizing qualifier with
  | nil => exact hq
  | cons hop hops ih =>
    obtain ⟨hhop, hhops⟩ := List.forall_mem_cons.mp h
    refine ih ?_ hhops
    simpa using hasQualifier_point hq hhop

def Draft.Named (d : Draft) : Prop := ∀ name ∈ d.rename?, hasQualifier name.toList = false

/-- The name at the end of a path without brackets reads as one name in brackets. -/
theorem hasQualifier_path {path : Reference} (hne : path.segments ≠ [])
    (hb : ∀ s ∈ path.segments, '[' ∉ s.toList) {d : Draft} (hd : d.Named) :
    hasQualifier (qualify (d.start path) path.segments.tail).toList = false := by
  refine hasQualifier_qualify ?_ fun hop hh => hb hop (List.mem_of_mem_tail hh)
  have hfirst : hasQualifier path.first.toList = false :=
    hasQualifier_of_notMem (hb _ (Reference.first_mem hne))
  unfold Draft.start
  split
  · next heq =>
    unfold Draft.root
    cases hrename : d.rename? with
    | none => rwa [Option.getD_none, ← heq]
    | some name => exact hd name hrename
  · exact hfirst

theorem rowName?_row {name : String} (h : hasQualifier name.toList = false) :
    rowName? (Term.row name).render = some name := by
  have htext : (Term.row name).render.toList = '[' :: (name.toList ++ [']']) := by
    simp [Term.render, bracket]
  simp [rowName?, htext, h]

end Sql

end RowSpec
