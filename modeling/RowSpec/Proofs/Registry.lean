import RowSpec.Proofs.Checking
import RowSpec.Schema.Registry

/-! The schemas that a program comes by. However specs are registered and expressions read, every
spec is over a table of the schema and its body is what its source reads as; a check that passes has
passed every spec. -/
namespace RowSpec

namespace Registry

variable {r : Registry}

theorem isSome_table? (r : Registry) (name : String) :
    (r.table? name).isSome = r.tableIndex.contains name := by
  rw [table?, Option.isSome_map, Std.TreeMap.contains_eq_isSome_getElem?]

theorem isSome_spec? (r : Registry) (name : String) :
    (r.spec? name).isSome = r.specIndex.contains name := by
  rw [spec?, Option.isSome_map, Std.TreeMap.contains_eq_isSome_getElem?]

/-- Tables come in one by one, up to the first whose name is there already. -/
theorem foldlM_addTable_cases (h : r.Indexed) (tables : List Table) :
    (∃ name, firstRepeated (r.tables.map Table.name) (tables.map Table.name) = some name ∧
        tables.foldlM addTable r = .error (.duplicateTable name)) ∨
      firstRepeated (r.tables.map Table.name) (tables.map Table.name) = none ∧ ∃ index,
        tables.foldlM addTable r =
          .ok { r with tables := r.tables ++ tables, tableIndex := index } := by
  induction tables generalizing r with
  | nil =>
    refine Or.inr ⟨rfl, r.tableIndex, ?_⟩
    rw [List.append_nil]
    rfl
  | cons t tables ih =>
    rw [List.foldlM_cons, List.map_cons, firstRepeated]
    have hcontains := @Index.Marks.contains_iff _ _ h.1 t.name
    by_cases hname : t.name ∈ r.tables.map Table.name
    · refine Or.inl ⟨t.name, if_pos hname, ?_⟩
      rw [addTable, if_pos (hcontains.mpr hname)]
      rfl
    · have hadd : r.addTable t = .ok { r with
          tableIndex := r.tableIndex.insert t.name r.tables.length
          tables := r.tables ++ [t] } := by
        rw [addTable, if_neg (mt hcontains.mp hname)]
      rw [if_neg hname, hadd]
      have hrest := ih (h.addTable hadd)
      simp only [List.map_append, List.map_cons, List.map_nil, List.append_assoc,
        List.cons_append, List.nil_append] at hrest
      exact hrest

theorem ofTables_cases (tables : List Table) :
    (∃ name, firstRepeated [] (tables.map Table.name) = some name ∧
        ofTables tables = .error (.duplicateTable name)) ∨
      firstRepeated [] (tables.map Table.name) = none ∧ ∃ index,
        ofTables tables = .ok ⟨tables, [], index, ∅, .start⟩ :=
  foldlM_addTable_cases indexed_empty tables

variable {source : String} {c : Counter}

theorem readExpr_ok {e : Expr NodeId} (h : parseSource r.counter source = (.ok e, c)) :
    r.readExpr source = (.ok e, { r with counter := c }) := by
  rw [Registry.readExpr, h]
  rfl

theorem readExpr_error {error : SourceError} (h : parseSource r.counter source = (.error error, c)) :
    r.readExpr source = (.error (.source error), { r with counter := c }) := by
  rw [Registry.readExpr, h]
  rfl

/-- How a registration ends: the name is taken, the table is not known, the source does not read, or
the spec is added. -/
theorem addSpec_outcome (r : Registry) (name table source : String) :
    ((r.spec? name).isSome = true ∧
        r.addSpec name table source = (.error (.schema (.duplicateSpec name)), r)) ∨
      (r.spec? name = none ∧ r.table? table = none ∧
        r.addSpec name table source = (.error (.schema (.unknownSpecTable name table)), r)) ∨
      (r.spec? name = none ∧ (r.table? table).isSome = true ∧ ∃ c,
        ((∃ e, parseSource r.counter source = (.error e, c) ∧
          r.addSpec name table source = (.error (.source e), { r with counter := c })) ∨
        ∃ body, parseSource r.counter source = (.ok body, c) ∧
          r.addSpec name table source =
            (.ok (), ({ r with counter := c } : Registry).push ⟨name, table, source, body⟩))) := by
  cases hname : r.spec? name with
  | some spec =>
    refine Or.inl ⟨rfl, ?_⟩
    simp [addSpec, ← isSome_spec?, hname]
  | none =>
    cases htable : r.table? table with
    | none =>
      refine Or.inr (Or.inl ⟨rfl, rfl, ?_⟩)
      simp [addSpec, ← isSome_spec?, ← isSome_table?, hname, htable]
    | some t =>
      refine Or.inr (Or.inr ⟨rfl, rfl, (parseSource r.counter source).2, ?_⟩)
      obtain ⟨result, c, hp⟩ : ∃ result c, parseSource r.counter source = (result, c) :=
        ⟨_, _, rfl⟩
      rw [hp]
      cases result with
      | error e =>
        refine Or.inl ⟨e, rfl, ?_⟩
        simp [addSpec, ← isSome_spec?, ← isSome_table?, hname, htable, readExpr_error hp]
      | ok body =>
        refine Or.inr ⟨body, rfl, ?_⟩
        simp [addSpec, ← isSome_spec?, ← isSome_table?, hname, htable, readExpr_ok hp]

end Registry

namespace Schema

inductive Built : Schema → Prop where
  | ofTables {tables : List Table} {s : Schema} (h : ofTables tables = .ok s) : Built s
  | addSpec {s : Schema} (h : Built s) (name table source : String) :
    Built (s.addSpec name table source).2
  | readExpr {s : Schema} (h : Built s) (source : String) : Built (s.readExpr source).2

variable {s t : Schema}

theorem eq_of_toRegistry (h : s.toRegistry = t.toRegistry) : s = t := by
  cases s
  cases t
  cases h
  rfl

theorem after_eq {α : Type} {operation : Registry → α × Registry}
    {h : ∀ {r}, r.Indexed → (operation r).2.Indexed} {a : α}
    (heq : operation s.toRegistry = (a, t.toRegistry)) : s.after operation h = (a, t) := by
  have hfst : (operation s.toRegistry).1 = a := congrArg Prod.fst heq
  have hsnd : (operation s.toRegistry).2 = t.toRegistry := congrArg Prod.snd heq
  exact Prod.ext hfst (eq_of_toRegistry hsnd)

theorem ofTables_eq_ok_iff {tables : List Table} :
    ofTables tables = .ok s ↔ Registry.ofTables tables = .ok s.toRegistry := by
  unfold ofTables
  split
  · next e he => simp [he]
  · next r hr =>
    rw [Except.ok.injEq]
    constructor
    · rintro rfl
      exact hr
    · intro h
      exact eq_of_toRegistry (Except.ok.inj (hr.symm.trans h))

theorem ofTables_eq_error_iff {tables : List Table} {error : SchemaError} :
    ofTables tables = .error error ↔ Registry.ofTables tables = .error error := by
  unfold ofTables
  split
  · next e he => simp [he]
  · next r hr => simp [hr]

theorem ofTables_eq_ok {tables : List Table} (h : ofTables tables = .ok s) :
    firstRepeated [] (tables.map Table.name) = none ∧ s.tables = tables ∧ s.specs = [] ∧
      s.counter = .start := by
  rw [ofTables_eq_ok_iff] at h
  rcases Registry.ofTables_cases tables with ⟨name, _, herror⟩ | ⟨hnone, index, hok⟩
  · rw [herror] at h
    cases h
  · rw [hok] at h
    rw [← Except.ok.inj h]
    exact ⟨hnone, rfl, rfl, rfl⟩

/-- The schema of some tables, without any if two of them share a name. -/
def withTables (tables : List Table) : Schema := (ofTables tables).toOption.getD .empty

theorem ofTables_withTables {tables : List Table}
    (h : firstRepeated [] (tables.map Table.name) = none) :
    ofTables tables = .ok (withTables tables) := by
  unfold withTables
  cases hs : ofTables tables with
  | ok s => rfl
  | error e =>
    rw [ofTables_eq_error_iff] at hs
    rcases Registry.ofTables_cases tables with ⟨name, hname, _⟩ | ⟨_, index, hok⟩
    · rw [h] at hname
      cases hname
    · rw [hok] at hs
      cases hs

theorem built_withTables (tables : List Table) : Built (withTables tables) := by
  unfold withTables
  cases hs : ofTables tables with
  | ok s => exact .ofTables hs
  | error e =>
    have hempty : ofTables [] = .ok .empty := ofTables_eq_ok_iff.mpr rfl
    exact .ofTables hempty

variable {source : String} {c : Counter}

theorem readExpr_ok {e : Expr NodeId} (h : parseSource s.counter source = (.ok e, c)) :
    s.readExpr source = (.ok e, { s with counter := c }) :=
  after_eq (Registry.readExpr_ok h)

theorem readExpr_error {error : SourceError} (h : parseSource s.counter source = (.error error, c)) :
    s.readExpr source = (.error (.source error), { s with counter := c }) :=
  after_eq (Registry.readExpr_error h)

theorem readOver_eq (s : Schema) (table source : String) : s.readOver table source =
    if (s.table? table).isNone then (.error (.schema (.unknownTable table)), s)
    else s.readExpr source := by
  by_cases h : (s.table? table).isNone = true
  · rw [if_pos h]
    exact after_eq (if_pos h)
  · rw [if_neg h]
    exact after_eq (if_neg h)

theorem toRegistry_addSpec (s : Schema) (name table source : String) :
    (s.addSpec name table source).2.toRegistry = (s.toRegistry.addSpec name table source).2 := rfl

theorem addSpec_cases (s : Schema) (name table source : String) :
    (s.addSpec name table source).2.tables = s.tables ∧
      ((s.addSpec name table source).2.specs = s.specs ∨
        ∃ body c, parseSource s.counter source = (.ok body, c) ∧ (s.table? table).isSome = true ∧
          (s.addSpec name table source).2.specs = s.specs ++ [⟨name, table, source, body⟩]) := by
  rw [toRegistry_addSpec]
  rcases s.toRegistry.addSpec_outcome name table source with
    ⟨_, h⟩ | ⟨_, _, h⟩ | ⟨_, ht, c, ⟨e, _, h⟩ | ⟨body, hp, h⟩⟩
  · exact ⟨by rw [h], Or.inl (by rw [h])⟩
  · exact ⟨by rw [h], Or.inl (by rw [h])⟩
  · exact ⟨by rw [h], Or.inl (by rw [h])⟩
  · exact ⟨by rw [h]; rfl, Or.inr ⟨body, c, hp, ht, by rw [h]; rfl⟩⟩

/-- Every spec is over a table of the schema, and its body was read from its source. -/
theorem Built.spec (h : s.Built) : ∀ spec ∈ s.specs, (s.table? spec.table).isSome = true ∧
    ∃ c c', parseSource c spec.source = (.ok spec.body, c') := by
  induction h with
  | ofTables h =>
    rw [(ofTables_eq_ok h).2.2.1]
    simp
  | @addSpec s _ name table source ih =>
    obtain ⟨htables, hspecs⟩ := addSpec_cases s name table source
    have htable : ∀ name', (s.addSpec name table source).2.table? name' = s.table? name' := by
      intro name'
      rw [Registry.Indexed.table? (indexed _), s.indexed.table?, htables]
    simp only [htable]
    rcases hspecs with hspecs | ⟨body, c, hp, ht, hspecs⟩
    · rw [hspecs]
      exact ih
    · rw [hspecs]
      refine List.forall_mem_append.mpr ⟨ih, ?_⟩
      exact List.forall_mem_singleton.mpr ⟨ht, s.counter, c, hp⟩
  | readExpr _ _ ih => exact ih

theorem forall_of_forM {ε α : Type} {f : α → Except ε Unit} {xs : List α}
    (h : xs.forM f = .ok ()) : ∀ x ∈ xs, f x = .ok () := by
  induction xs with
  | nil => simp
  | cons x xs ih =>
    obtain ⟨_, hx, hxs⟩ := ok_of_bind h
    exact List.forall_mem_cons.mpr ⟨hx, ih hxs⟩

theorem ok_of_mapError {ε ε' α : Type} {x : Except ε α} {f : ε → ε'} {a : α}
    (h : x.mapError f = .ok a) : x = .ok a := by
  cases x with
  | error e => cases h
  | ok b => cases h; rfl

theorem mapError_ok {ε ε' α : Type} {x : Except ε α} {f : ε → ε'} {a : α} (h : x = .ok a) :
    x.mapError f = .ok a := by
  rw [h]
  rfl

theorem typeOf_of_checkBoolean {e : Expr NodeId} {subject : String}
    (h : e.checkBoolean s subject = .ok ()) : e.typeOf s = .ok .boolean := by
  obtain ⟨ty, hty, h⟩ := ok_of_bind h
  split at h
  · next hb => rw [hty, hb]
  · cases h

theorem checkBoolean_of_typeOf {e : Expr NodeId} (subject : String)
    (h : e.typeOf s = .ok .boolean) : e.checkBoolean s subject = .ok () :=
  ok_bind h rfl

theorem check_spec_eq_ok_iff {spec : Spec} : spec.check s = .ok () ↔
    spec.body.typeOf s = .ok .boolean ∧ spec.body.checkScope s spec.table = .ok () := by
  constructor
  · intro h
    obtain ⟨_, hb, hscope⟩ := ok_of_bind h
    exact ⟨typeOf_of_checkBoolean (ok_of_mapError hb), ok_of_mapError hscope⟩
  · rintro ⟨hty, hscope⟩
    exact ok_bind (mapError_ok (checkBoolean_of_typeOf _ hty)) (mapError_ok hscope)

theorem spec_of_check (h : s.check = .ok ()) : ∀ spec ∈ s.specs,
    spec.body.typeOf s = .ok .boolean ∧ spec.body.checkScope s spec.table = .ok () :=
  fun spec hs => check_spec_eq_ok_iff.mp (forall_of_forM h spec hs)

end Schema

end RowSpec
