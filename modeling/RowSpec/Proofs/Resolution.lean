import RowSpec.Proofs.JoinRequests

/-! Typing and compilation follow a path alike. Both succeed on the paths that go over parents to a
row, or on from there to one field, and on no others. The type tells which of the two it is, and so
does the text: a name in brackets, a column, or a column that is tested. -/
namespace RowSpec

variable {schema : Schema} {t u v : Table} {members hops : List String} {field? : Option Field}

inductive Resolves (schema : Schema) (t : Table) :
    List String → List String → Table → Option Field → Prop where
  | row {hops : List String} {u : Table} (h : Follows schema t hops u) :
    Resolves schema t hops hops u none
  | field {hops : List String} {u : Table} {name : String} {field : Field}
    (h : Follows schema t hops u) (hf : u.field? name = some field) :
    Resolves schema t (hops ++ [name]) hops u (some field)

theorem Resolves.hop {hop : String} {p : Parent} (hf : t.field? hop = none)
    (hp : t.parent? hop = some p) (hu : schema.table? p.table = some u)
    (h : Resolves schema u members hops v field?) :
    Resolves schema t (hop :: members) (hop :: hops) v field? := by
  cases h with
  | row h => exact .row (.cons hf hp hu h)
  | field h hfield => exact .field (.cons hf hp hu h) hfield

theorem Resolves.follows (h : Resolves schema t members hops u field?) :
    Follows schema t hops u := by
  cases h with
  | row h => exact h
  | field h _ => exact h

theorem Resolves.eq_of_row (h : Resolves schema t members hops u none) :
    members = hops ∧ Follows schema t hops u := by
  cases h with
  | row h => exact ⟨rfl, h⟩

def Reference.EndsAt (schema : Schema) (path : Reference) (u : Table) : Prop :=
  path.segments ≠ [] ∧
    ∃ t, schema.table? path.first = some t ∧ Follows schema t path.segments.tail u

theorem Reference.EndsAt.registered {path : Reference} (h : path.EndsAt schema u) :
    schema.table? u.name = some u := by
  obtain ⟨_, t, ht, hfollow⟩ := h
  apply hfollow.table?
  rwa [Schema.table?_eq_some ht]

namespace Typing

theorem referenceType_of_table {path : Reference} (ht : schema.table? path.first = some t) :
    referenceType schema path = memberType schema path t path.segments.tail := by
  simp only [referenceType, ht]

def endType (u : Table) : Option Field → Ty
  | none => .table u.name
  | some field => field.type.ty

theorem memberType_append (h : Follows schema t hops u) (path : Reference) (rest : List String) :
    memberType schema path t (hops ++ rest) = memberType schema path u rest := by
  induction h with
  | nil => rfl
  | cons hf hp hu _ ih => simp only [List.cons_append, memberType, hf, hp, hu, ih]

theorem memberType_of_resolves (h : Resolves schema t members hops u field?) (path : Reference) :
    memberType schema path t members = .ok (endType u field?) := by
  cases h with
  | row h =>
    have hend := memberType_append h path []
    rwa [List.append_nil] at hend
  | field h hf =>
    rw [memberType_append h]
    simp [memberType, hf, endType]

theorem memberType_eq_ok_iff {path : Reference} {ty : Ty} :
    memberType schema path t members = .ok ty ↔
      ∃ hops u field?, Resolves schema t members hops u field? ∧ ty = endType u field? := by
  constructor
  · intro h
    obtain ⟨hops, u, hfollow, ⟨rfl, rfl⟩ | ⟨name, field, rfl, hf, rfl⟩⟩ := memberType_eq_ok h
    · exact ⟨_, u, none, .row hfollow, rfl⟩
    · exact ⟨hops, u, some field, .field hfollow hf, rfl⟩
  · rintro ⟨hops, u, field?, h, rfl⟩
    exact memberType_of_resolves h path

theorem endType_eq_table {name : String} :
    endType u field? = .table name ↔ field? = none ∧ u.name = name := by
  cases field? with
  | none => simp [endType]
  | some field => cases h : field.type <;> simp [endType, FieldType.ty, h]

theorem endType_eq_boolean :
    endType u field? = .boolean ↔ ∃ field, field? = some field ∧ field.type = .boolean := by
  cases field? with
  | none => simp [endType]
  | some field => cases h : field.type <;> simp [endType, FieldType.ty, h]

theorem endType_mem_scalar : endType u field? ∈ [.number, .string, .date] ↔
    ∃ field, field? = some field ∧ field.type ≠ .boolean := by
  cases field? with
  | none => simp [endType]
  | some field => cases h : field.type <;> simp [endType, FieldType.ty, h]

end Typing

theorem Reference.EndsAt.referenceType {path : Reference} (h : path.EndsAt schema u) :
    Typing.referenceType schema path = .ok (.table u.name) := by
  obtain ⟨_, t, ht, hfollow⟩ := h
  rw [Typing.referenceType_of_table ht]
  exact Typing.memberType_of_resolves (.row hfollow) path

theorem Reference.endsAt_of_referenceType {path : Reference} {name : String}
    (hne : path.segments ≠ []) (h : Typing.referenceType schema path = .ok (.table name)) :
    ∃ u, path.EndsAt schema u ∧ u.name = name := by
  obtain ⟨t, u, ht, hfollow, hu⟩ := Typing.follows_of_referenceType h
  exact ⟨u, ⟨hne, t, ht, hfollow⟩, hu⟩

namespace Sql

def endTerm (row : String) : Option Field → Term
  | none => .row row
  | some field => fieldTerm row field

/-- The joins that lead over the parents `hops`: one under the name of every row on the way, and the
last of them is of the table at the end. -/
structure Bridges (q : String) (hops : List String) (u : Table) (js : List Join) : Prop where
  passed : ∀ passed, passed ≠ [] → passed <+: hops → ∃ j ∈ js, j.key = qualify q passed
  last : hops ≠ [] → ∃ before j, js = before ++ [j] ∧ j.key = qualify q hops ∧ j.table = u.name
  stays : hops = [] → js = []

theorem bridges_nil (q : String) (u : Table) : Bridges q [] u [] where
  passed _ hne h := absurd (List.prefix_nil.mp h) hne
  last h := absurd rfl h
  stays _ := rfl

theorem parentJoin_key {hop : String} {p : Parent} (hp : t.parent? hop = some p) (q : String)
    (u : Table) : (parentJoin q p u).key = q ++ "." ++ hop := by
  rw [← Table.parent?_eq_some hp]
  rfl

theorem Bridges.hop {q hop : String} {p : Parent} {js : List Join} (hp : t.parent? hop = some p)
    (hfollow : Follows schema u hops v) (h : Bridges (q ++ "." ++ hop) hops v js) :
    Bridges q (hop :: hops) v (parentJoin q p u :: js) where
  passed passed hne hprefix := by
    obtain ⟨first, rest, rfl⟩ := List.exists_cons_of_ne_nil hne
    obtain ⟨rfl, hrest⟩ := List.cons_prefix_cons.mp hprefix
    by_cases hempty : rest = []
    · subst hempty
      exact ⟨_, List.mem_cons_self, parentJoin_key hp q u⟩
    · obtain ⟨j, hj, hkey⟩ := h.passed rest hempty hrest
      exact ⟨j, List.mem_cons_of_mem _ hj, hkey⟩
  last _ := by
    by_cases hempty : hops = []
    · subst hempty
      cases hfollow
      rw [h.stays rfl]
      exact ⟨[], parentJoin q p u, rfl, parentJoin_key hp q u, rfl⟩
    · obtain ⟨before, j, rfl, hkey, htable⟩ := h.last hempty
      exact ⟨parentJoin q p u :: before, j, rfl, hkey, htable⟩
  stays h := by cases h

/-- A compilation that comes to the end of a path has taken it for what it is, and has joined every
parent on the way. -/
theorem Walks.resolves {q : String} {term : Term} {js : List Join}
    (h : Walks schema q t members (some term) js) : ∃ hops u field?,
      Resolves schema t members hops u field? ∧ Bridges q hops u js ∧
      term = endTerm (qualify q hops) field? := by
  generalize houtcome : some term = outcome at h
  induction h with
  | row q t =>
    cases houtcome
    exact ⟨[], t, none, .row (.nil t), bridges_nil q t, rfl⟩
  | @field q name t field hf =>
    cases houtcome
    exact ⟨[], t, some field, .field (.nil t) hf, bridges_nil q t, rfl⟩
  | stop => cases houtcome
  | hop hf hp hu _ ih =>
    obtain ⟨hops, v, field?, hresolves, hbridges, hterm⟩ := ih houtcome
    exact ⟨_ :: hops, v, field?, hresolves.hop hf hp hu, hbridges.hop hp hresolves.follows,
      hterm⟩

section text

variable {row : String}

theorem bracket_ne_column (row name : String) :
    bracket row ≠ bracket row ++ "." ++ bracket name := by
  intro h
  have hlength := congrArg (fun text => text.toList.length) h
  simp [bracket] at hlength

theorem bracket_ne_test (row name : String) :
    bracket row ≠ bracket row ++ "." ++ bracket name ++ " = 1" := by
  intro h
  have hlast := congrArg (fun text => text.toList.reverse.head?) h
  simp [bracket] at hlast

theorem column_ne_test (row name name' : String) :
    bracket row ++ "." ++ bracket name ≠ bracket row ++ "." ++ bracket name' ++ " = 1" := by
  intro h
  have hlast := congrArg (fun text => text.toList.reverse.head?) h
  simp [bracket] at hlast

theorem render_fieldTerm_boolean {field : Field} (h : field.type = .boolean) :
    (fieldTerm row field).render = bracket row ++ "." ++ bracket field.name ++ " = 1" := by
  simp only [fieldTerm, h]
  rfl

theorem render_fieldTerm_scalar {field : Field} (h : field.type ≠ .boolean) :
    (fieldTerm row field).render = bracket row ++ "." ++ bracket field.name := by
  unfold fieldTerm
  split
  · next hboolean => exact absurd hboolean h
  · rfl

theorem render_endTerm_eq_row : (endTerm row field?).render = bracket row ↔ field? = none := by
  cases field? with
  | none => exact iff_of_true rfl rfl
  | some field =>
    refine iff_of_false (fun h => ?_) (by simp)
    by_cases hboolean : field.type = .boolean
    · exact bracket_ne_test row field.name (h.symm.trans (render_fieldTerm_boolean hboolean))
    · exact bracket_ne_column row field.name (h.symm.trans (render_fieldTerm_scalar hboolean))

theorem render_endTerm_eq_test :
    (∃ name, (endTerm row field?).render = bracket row ++ "." ++ bracket name ++ " = 1") ↔
      ∃ field, field? = some field ∧ field.type = .boolean := by
  cases field? with
  | none =>
    refine iff_of_false ?_ (by simp)
    rintro ⟨name, h⟩
    exact bracket_ne_test row name h
  | some field =>
    by_cases hboolean : field.type = .boolean
    · exact iff_of_true ⟨field.name, render_fieldTerm_boolean hboolean⟩ ⟨field, rfl, hboolean⟩
    · refine iff_of_false ?_ (by simpa using hboolean)
      rintro ⟨name, h⟩
      exact column_ne_test row field.name name ((render_fieldTerm_scalar hboolean).symm.trans h)

theorem render_endTerm_eq_column :
    (∃ name, (endTerm row field?).render = bracket row ++ "." ++ bracket name) ↔
      ∃ field, field? = some field ∧ field.type ≠ .boolean := by
  cases field? with
  | none =>
    refine iff_of_false ?_ (by simp)
    rintro ⟨name, h⟩
    exact bracket_ne_column row name h
  | some field =>
    by_cases hboolean : field.type = .boolean
    · refine iff_of_false ?_ (by simpa using hboolean)
      rintro ⟨name, h⟩
      exact column_ne_test row name field.name (h.symm.trans (render_fieldTerm_boolean hboolean))
    · exact iff_of_true ⟨field.name, render_fieldTerm_scalar hboolean⟩ ⟨field, rfl, hboolean⟩

end text

theorem mem_keys_addJoins {j : Join} {js : List Join} (h : j ∈ js) (d : Draft) :
    j.key ∈ (d.addJoins js).joins.map Join.key := by
  rw [Draft.addJoins_eq]
  exact mem_keys_mergeBy.mpr (Or.inr (List.mem_map_of_mem h))

/-- What a reference that compiles has been resolved to, and the joins it has asked for. -/
theorem compileReference_resolves {path : Reference} {d d' : Draft} {term : Term}
    (h : (compileReference schema path).run d = (.ok term, d')) :
    path.segments ≠ [] ∧ ∃ t hops u field? js, schema.table? path.first = some t ∧
      Resolves schema t path.segments.tail hops u field? ∧ Bridges (d.start path) hops u js ∧
      term = endTerm (qualify (d.start path) hops) field? ∧ d' = d.addJoins js := by
  constructor
  · intro hempty
    simp [compileReference, hempty] at h
  · rcases compileReference_cases h with ⟨t, js, ht, hd, hwalks⟩ | ⟨hnone, _⟩
    · obtain ⟨hops, u, field?, hresolves, hbridges, hterm⟩ := hwalks.resolves
      exact ⟨t, hops, u, field?, js, ht, hresolves, hbridges, hterm, hd⟩
    · cases hnone

theorem endTerm_eq_row {row name : String} :
    endTerm row field? = .row name ↔ field? = none ∧ row = name := by
  cases field? with
  | none => simp [endTerm]
  | some field => cases h : field.type <;> simp [endTerm, fieldTerm, h]

/-- A reference compiles to a row exactly if its path ends at a table. -/
theorem compileReference_eq_row_iff {path : Reference} {d : Draft} {row : String} :
    (∃ d', (compileReference schema path).run d = (.ok (.row row), d')) ↔
      (∃ u, path.EndsAt schema u) ∧ row = qualify (d.start path) path.segments.tail := by
  constructor
  · rintro ⟨d', hrun⟩
    obtain ⟨hne, t, hops, u, field?, _, ht, hresolves, _, hterm, _⟩ :=
      compileReference_resolves hrun
    obtain ⟨rfl, rfl⟩ := endTerm_eq_row.mp hterm.symm
    obtain ⟨rfl, hfollow⟩ := hresolves.eq_of_row
    exact ⟨⟨u, hne, t, ht, hfollow⟩, rfl⟩
  · rintro ⟨⟨u, hne, t, ht, hfollow⟩, rfl⟩
    obtain ⟨joins, hjoins⟩ := compileMembers_follows hfollow (d.start path)
    exact ⟨_, (compileReference_run hne ht d).trans (hjoins d)⟩

/-- A path from a registered table has a type exactly if it compiles, whatever the draft. The type
tells what the path compiles to, and every row on the way is joined. -/
theorem reference_resolved_alike {path : Reference} (hne : path.segments ≠ [])
    (ht : schema.table? path.first = some t) (d : Draft) :
    ((∃ ty, Typing.referenceType schema path = .ok ty) ↔
      ∃ term d', (compileReference schema path).run d = (.ok term, d')) ∧
    ∀ ty term d', Typing.referenceType schema path = .ok ty →
      (compileReference schema path).run d = (.ok term, d') →
      ∃ hops u field? row, Resolves schema t path.segments.tail hops u field? ∧
        row = qualify (d.start path) hops ∧
        (∀ name, ty = .table name ↔ term.render = bracket row ∧ u.name = name) ∧
        (ty = .boolean ↔ ∃ name, term.render = bracket row ++ "." ++ bracket name ++ " = 1") ∧
        (ty ∈ [.number, .string, .date] ↔
          ∃ name, term.render = bracket row ++ "." ++ bracket name) ∧
        (∀ field ∈ field?, term.render = bracket row ++ "." ++ bracket field.name ∨
          term.render = bracket row ++ "." ++ bracket field.name ++ " = 1") ∧
        (∀ passed, passed ≠ [] → passed <+: hops →
          qualify (d.start path) passed ∈ d'.joins.map Join.key) ∧
        (hops = [] → u = t) ∧
        (hops ≠ [] → ∃ js last, d' = d.addJoins (js ++ [last]) ∧ last.key = row ∧
          last.table = u.name) := by
  rw [Typing.referenceType_of_table ht]
  constructor
  · constructor
    · rintro ⟨ty, hty⟩
      rw [compileReference_run hne ht]
      exact compileMembers_of_memberType hty _ d
    · rintro ⟨term, d', hrun⟩
      obtain ⟨_, t', hops, u, field?, _, ht', hresolves, _⟩ := compileReference_resolves hrun
      cases ht.symm.trans ht'
      exact ⟨_, Typing.memberType_of_resolves hresolves path⟩
  · intro ty term d' hty hrun
    obtain ⟨_, t', hops, u, field?, js, ht', hresolves, hbridges, rfl, rfl⟩ :=
      compileReference_resolves hrun
    cases ht.symm.trans ht'
    rw [Typing.memberType_of_resolves hresolves] at hty
    obtain rfl := Except.ok.inj hty
    refine ⟨hops, u, field?, _, hresolves, rfl, ?_, ?_, ?_, ?_, ?_, ?_, ?_⟩
    · intro name
      rw [Typing.endType_eq_table, render_endTerm_eq_row]
    · rw [Typing.endType_eq_boolean, render_endTerm_eq_test]
    · rw [Typing.endType_mem_scalar, render_endTerm_eq_column]
    · rintro field rfl
      by_cases hboolean : field.type = .boolean
      · exact Or.inr (render_fieldTerm_boolean hboolean)
      · exact Or.inl (render_fieldTerm_scalar hboolean)
    · intro passed hpassed hprefix
      obtain ⟨j, hj, hkey⟩ := hbridges.passed passed hpassed hprefix
      rw [← hkey]
      exact mem_keys_addJoins hj d
    · rintro rfl
      cases hresolves.follows
      rfl
    · intro hhops
      obtain ⟨before, last, rfl, hkey, htable⟩ := hbridges.last hhops
      exact ⟨before, last, rfl, hkey, htable⟩

theorem reference_resolved_alike_owners : ∃ t term d', owners.table? "Account" = some t ∧
    Typing.referenceType owners ⟨["Account", "Owner", "Id"]⟩ = .ok .number ∧
    (compileReference owners ⟨["Account", "Owner", "Id"]⟩).run ⟨"Account", some "A", [], []⟩ =
      (.ok term, d') ∧
    (∃ row name, term.render = bracket row ++ "." ++ bracket name) ∧
    term.render = "[A.Owner].[Id]" ∧ d'.joins.map Join.key = ["A.Owner"] := by
  have htype : Typing.referenceType owners ⟨["Account", "Owner", "Id"]⟩ = .ok .number := by
    decide +kernel
  have hrender : (((compileReference owners ⟨["Account", "Owner", "Id"]⟩).run
      ⟨"Account", some "A", [], []⟩).map (fun r => r.toOption.map Term.render)
        fun d => d.joins.map Join.key) = (some "[A.Owner].[Id]", ["A.Owner"]) := by
    decide +kernel
  obtain ⟨t, ht⟩ := Option.isSome_iff_exists.mp
    (show (owners.table? "Account").isSome = true by decide +kernel)
  obtain ⟨halike, hends⟩ := @reference_resolved_alike owners t ⟨["Account", "Owner", "Id"]⟩
    (by simp) ht ⟨"Account", some "A", [], []⟩
  obtain ⟨term, d', hrun⟩ := halike.mp ⟨_, htype⟩
  obtain ⟨_, _, _, row, _, _, _, _, hscalar, _⟩ := hends _ _ _ htype hrun
  obtain ⟨name, hname⟩ := hscalar.mp (by simp)
  rw [hrun] at hrender
  obtain ⟨hterm, hjoins⟩ := Prod.mk.inj hrender
  exact ⟨t, term, d', ht, htype, hrun, ⟨row, name, hname⟩, Option.some.inj hterm, hjoins⟩

end Sql

end RowSpec
