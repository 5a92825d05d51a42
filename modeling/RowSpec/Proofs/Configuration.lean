import Mathlib.Data.List.Forall2
import RowSpec.Config.Basic
import RowSpec.Proofs.Operations

/-! Which configurations make a schema, and which schema they make. A configuration is told by the
tables that it means once its gaps are filled; these have to be sound, each name has to be given
once, and every spec needs a table and a source that reads. Nothing else is asked: a parent may lead
to a table that is not there. -/
namespace RowSpec

structure Table.Sound (t : Table) : Prop where
  fields : (t.fields.map Field.name).Nodup
  parents : (t.parents.map Parent.name).Nodup
  id : t.id ∈ t.fields.map Field.name
  keys : ∀ p ∈ t.parents, p.id ∈ t.fields.map Field.name
  apart : ∀ p ∈ t.parents, p.name ∉ t.fields.map Field.name

namespace Table

variable {t u : Table}

theorem hasField_iff {name : String} : t.hasField name = true ↔ name ∈ t.fields.map Field.name := by
  simp [hasField, List.any_eq_true]

theorem missing_eq_nil_iff :
    (t.parents.map Parent.id).filter (fun id => !t.hasField id) = [] ↔
      ∀ p ∈ t.parents, p.id ∈ t.fields.map Field.name := by
  rw [List.filter_eq_nil_iff, List.forall_mem_map]
  simp only [Bool.not_eq_true', Bool.not_eq_false, hasField_iff]

theorem colliding_eq_nil_iff :
    (t.parents.map Parent.name).filter t.hasField = [] ↔
      ∀ p ∈ t.parents, p.name ∉ t.fields.map Field.name := by
  rw [List.filter_eq_nil_iff, List.forall_mem_map]
  simp only [hasField_iff]

theorem firstRepeated_nil_iff {names : List String} :
    firstRepeated [] names = none ↔ names.Nodup := by
  simp [firstRepeated_eq_none_iff]

/-- The five checks, each of which ends the validation, pass together on the sound tables alone. -/
theorem validate_eq_ok_iff : t.validate = .ok u ↔ u = t ∧ t.Sound := by
  unfold validate
  constructor
  · intro h
    split at h
    · cases h
    · next hfields =>
      split at h
      · cases h
      · next hparents =>
        dsimp only at h
        split_ifs at h with hid hmissing hcolliding
        cases h
        refine ⟨rfl, ?_, ?_, ?_, ?_, ?_⟩
        · exact firstRepeated_nil_iff.mp hfields
        · exact firstRepeated_nil_iff.mp hparents
        · exact hasField_iff.mp (by simpa using hid)
        · exact missing_eq_nil_iff.mp (not_not.mp hmissing)
        · exact colliding_eq_nil_iff.mp (not_not.mp hcolliding)
  · rintro ⟨rfl, h⟩
    have hid := hasField_iff.mpr h.id
    have hmissing := missing_eq_nil_iff.mpr h.keys
    have hcolliding := colliding_eq_nil_iff.mpr h.apart
    simp [firstRepeated_nil_iff.mpr h.fields, firstRepeated_nil_iff.mpr h.parents, hid, hmissing,
      hcolliding]

/-- A name is looked up among fields and parents alike, and found among one of them at most. -/
theorem Sound.resolves (h : t.Sound) (name : String) :
    (t.field? name = none ∨ t.parent? name = none) ∧
      (∀ f, t.field? name = some f ↔ f ∈ t.fields ∧ f.name = name) ∧
      ∀ p, t.parent? name = some p ↔ p ∈ t.parents ∧ p.name = name := by
  have hfield : ∀ f, t.field? name = some f ↔ f ∈ t.fields ∧ f.name = name :=
    fun f => find?_eq_some_iff_of_nodup h.fields
  have hparent : ∀ p, t.parent? name = some p ↔ p ∈ t.parents ∧ p.name = name :=
    fun p => find?_eq_some_iff_of_nodup h.parents
  refine ⟨?_, hfield, hparent⟩
  cases hp : t.parent? name with
  | none => exact Or.inr rfl
  | some p =>
    obtain ⟨hmem, rfl⟩ := (hparent p).mp hp
    refine Or.inl (Option.eq_none_iff_forall_ne_some.mpr fun f hf => ?_)
    obtain ⟨hf, hname⟩ := (hfield f).mp hf
    exact h.apart p hmem (hname ▸ List.mem_map_of_mem hf)

end Table

def IsReadable (source : String) : Prop :=
  ∃ tokens, tokenize source = .ok tokens ∧ ∃ e, (parse .start tokens).result = .ok e

/-- Whether a source reads does not hang on the numbers that have been spent. -/
theorem isReadable_iff {source : String} (c : Counter) :
    IsReadable source ↔ ∃ e c', parseSource c source = (.ok e, c') := by
  constructor
  · rintro ⟨tokens, ht, e, he⟩
    have hd := derives_of_parse he
    refine ⟨(e.erase.withIds c).1, (e.erase.withIds c).2, parseSource_eq_ok_iff.mpr
      ⟨sentence tokens, Lexer.scans_of_tokens ht, ?_, ?_⟩⟩
    · rwa [Expr.erase_withIds]
    · rw [Expr.erase_withIds]
  · rintro ⟨e, c', h⟩
    obtain ⟨ks, hs, hd, _⟩ := parseSource_eq_ok_iff.mp h
    obtain ⟨tokens, ht, rfl⟩ := Lexer.tokens_of_scans hs 0
    exact ⟨tokens, ht, _, (parse_of_derives .start hd).1⟩

namespace Config

structure Field.Means (f : Config.Field) (g : RowSpec.Field) : Prop where
  name : g.name = f.name
  boolean : g.type = .boolean ↔ f.type? = some "boolean"
  number : g.type = .number ↔ f.type? = some "number"
  date : g.type = .date ↔ f.type? = some "date"

structure Parent.Means (p : Config.Parent) (q : RowSpec.Parent) : Prop where
  name : q.name = p.name
  table : q.table = p.table?.getD p.name
  id : q.id = p.id?.getD (p.name ++ "Id")

structure Table.Means (t : Config.Table) (u : RowSpec.Table) : Prop where
  name : u.name = t.name
  id : u.id = t.id?.getD "Id"
  fields : List.Forall₂ Field.Means t.fields u.fields
  parents : List.Forall₂ Parent.Means t.parents u.parents

structure Spec.Means (s : Config.Spec) (u : RowSpec.Spec) : Prop where
  name : u.name = s.name
  table : u.table = s.table
  source : u.source = s.source
  body : ∃ c c', parseSource c s.source = (.ok u.body, c')

structure Valid (c : Config) : Prop where
  tables : ∀ t ∈ c.tables, ∃ u, t.Means u ∧ u.Sound
  tableNames : (c.tables.map Table.name).Nodup
  specNames : (c.specs.map Spec.name).Nodup
  owners : ∀ s ∈ c.specs, s.table ∈ c.tables.map Table.name
  sources : ∀ s ∈ c.specs, IsReadable s.source

theorem forall₂_iff_eq_map {α β : Type} {R : α → β → Prop} {f : α → β}
    (h : ∀ x y, R x y ↔ y = f x) {xs : List α} {ys : List β} :
    List.Forall₂ R xs ys ↔ ys = xs.map f := by
  have hR : R = fun x y => f x = y := by
    ext x y
    rw [h, eq_comm]
  rw [hR, ← List.forall₂_map_left_iff, List.forall₂_eq_eq_eq, eq_comm]

theorem fill_type_iff (f : Config.Field) :
    (f.fill.type = .boolean ↔ f.type? = some "boolean") ∧
      (f.fill.type = .number ↔ f.type? = some "number") ∧
      (f.fill.type = .date ↔ f.type? = some "date") := by
  cases h : f.type? with
  | none => simp [Field.fill, h]
  | some name =>
    have hfill : f.fill.type = FieldType.ofName name := by simp [Field.fill, h]
    rw [hfill]
    unfold FieldType.ofName
    split <;> simp_all

theorem Field.means_iff (f : Config.Field) (g : RowSpec.Field) : f.Means g ↔ g = f.fill := by
  obtain ⟨hboolean, hnumber, hdate⟩ := fill_type_iff f
  constructor
  · intro h
    obtain ⟨name, type⟩ := g
    obtain rfl : name = f.name := h.name
    have hb := h.boolean.trans hboolean.symm
    have hn := h.number.trans hnumber.symm
    have hd := h.date.trans hdate.symm
    have htype : type = f.fill.type := by
      cases type <;> cases hfill : f.fill.type <;> simp_all
    rw [htype]
    rfl
  · rintro rfl
    exact ⟨rfl, hboolean, hnumber, hdate⟩

theorem Parent.means_iff (p : Config.Parent) (q : RowSpec.Parent) : p.Means q ↔ q = p.fill := by
  constructor
  · rintro ⟨hname, htable, hid⟩
    obtain ⟨name, table, id⟩ := q
    cases hname
    cases htable
    cases hid
    rfl
  · rintro rfl
    exact ⟨rfl, rfl, rfl⟩

/-- Filling the gaps gives the one table that is meant. -/
theorem Table.means_iff (t : Config.Table) (u : RowSpec.Table) : t.Means u ↔ u = t.fill := by
  constructor
  · rintro ⟨hname, hid, hfields, hparents⟩
    obtain ⟨name, id, fields, parents⟩ := u
    cases hname
    cases hid
    cases (forall₂_iff_eq_map Field.means_iff).mp hfields
    cases (forall₂_iff_eq_map Parent.means_iff).mp hparents
    rfl
  · rintro rfl
    exact ⟨rfl, rfl, (forall₂_iff_eq_map Field.means_iff).mpr rfl,
      (forall₂_iff_eq_map Parent.means_iff).mpr rfl⟩

theorem exists_means_sound_iff (t : Config.Table) :
    (∃ u, t.Means u ∧ u.Sound) ↔ t.fill.Sound := by
  simp only [Table.means_iff, exists_eq_left]

theorem mapM_validate_eq_ok_iff {ts us : List RowSpec.Table} :
    ts.mapM RowSpec.Table.validate = .ok us ↔ us = ts ∧ ∀ t ∈ ts, t.Sound := by
  induction ts generalizing us with
  | nil =>
    change Except.ok [] = Except.ok us ↔ _
    rw [Except.ok.injEq, eq_comm]
    simp
  | cons t ts ih =>
    rw [List.mapM_cons]
    constructor
    · intro h
      obtain ⟨u, hu, hrest⟩ := ok_of_bind h
      obtain ⟨vs, hvs, hus⟩ := ok_of_bind hrest
      obtain ⟨rfl, hsound⟩ := RowSpec.Table.validate_eq_ok_iff.mp hu
      obtain ⟨rfl, hall⟩ := ih.mp hvs
      cases hus
      exact ⟨rfl, List.forall_mem_cons.mpr ⟨hsound, hall⟩⟩
    · rintro ⟨rfl, hall⟩
      obtain ⟨hsound, hrest⟩ := List.forall_mem_cons.mp hall
      exact ok_bind (RowSpec.Table.validate_eq_ok_iff.mpr ⟨rfl, hsound⟩)
        (ok_bind (ih.mpr ⟨rfl, hrest⟩) rfl)

theorem ofTables_eq_ok_iff {tables : List RowSpec.Table} {s : Schema} :
    Schema.ofTables tables = .ok s ↔
      (tables.map RowSpec.Table.name).Nodup ∧ s = Schema.withTables tables := by
  constructor
  · intro h
    have hnone := (Schema.ofTables_eq_ok h).1
    rw [Schema.ofTables_withTables hnone] at h
    exact ⟨RowSpec.Table.firstRepeated_nil_iff.mp hnone, (Except.ok.inj h).symm⟩
  · rintro ⟨hnodup, rfl⟩
    exact Schema.ofTables_withTables (RowSpec.Table.firstRepeated_nil_iff.mpr hnodup)

theorem lists_withTables {tables : List RowSpec.Table}
    (h : (tables.map RowSpec.Table.name).Nodup) :
    (Schema.withTables tables).tables = tables ∧ (Schema.withTables tables).specs = [] := by
  obtain ⟨_, htables, hspecs, _⟩ := Schema.ofTables_eq_ok (ofTables_eq_ok_iff.mpr ⟨h, rfl⟩)
  exact ⟨htables, hspecs⟩

/-- One registration: the schema it is made in, and the one that the others are made in. -/
theorem addSpecs_cons_eq_ok_iff {s s' : Schema} {spec : Config.Spec} {specs : List Config.Spec} :
    addSpecs s (spec :: specs) = .ok s' ↔ s.spec? spec.name = none ∧
      (s.table? spec.table).isSome = true ∧ ∃ body c,
        parseSource s.counter spec.source = (.ok body, c) ∧
        addSpecs (s.addSpec spec.name spec.table spec.source).2 specs = .ok s' := by
  rw [addSpecs]
  constructor
  · intro h
    split at h
    · cases h
    · next s₁ hadd =>
      obtain ⟨hname, htable, body, c, hp, _⟩ := Schema.addSpec_eq_ok (congrArg Prod.fst hadd)
      rw [hadd]
      exact ⟨hname, htable, body, c, hp, h⟩
  · rintro ⟨hname, htable, body, c, hp, h⟩
    have hok := (Schema.addSpec_of_parseSource hname htable hp).1
    split
    · next he => rw [he] at hok; cases hok
    · next s₁ hadd => rwa [hadd] at h

theorem spec?_append_singleton {s t : Schema} {spec : RowSpec.Spec}
    (h : t.specs = s.specs ++ [spec]) {name : String} :
    t.spec? name = none ↔ s.spec? name = none ∧ spec.name ≠ name := by
  simp [s.indexed.spec?, t.indexed.spec?, h]

theorem isSome_table?_iff (s : Schema) (name : String) :
    (s.table? name).isSome = true ↔ name ∈ s.tables.map RowSpec.Table.name := by
  simp [s.indexed.table?]

/-- The specs of a list can be registered one after the other exactly if no name is taken or given
twice, every table is there and every source reads. -/
theorem exists_addSpecs_iff {s : Schema} {specs : List Config.Spec} :
    (∃ s', addSpecs s specs = .ok s') ↔ (specs.map Spec.name).Nodup ∧
      ∀ spec ∈ specs, s.spec? spec.name = none ∧ (s.table? spec.table).isSome = true ∧
        IsReadable spec.source := by
  induction specs generalizing s with
  | nil => simp [addSpecs]
  | cons spec specs ih =>
    simp only [addSpecs_cons_eq_ok_iff]
    rw [List.map_cons, List.nodup_cons, List.forall_mem_cons]
    constructor
    · rintro ⟨s', hname, htable, body, c, hp, h⟩
      obtain ⟨_, htables, hspecs⟩ := Schema.addSpec_of_parseSource hname htable hp
      obtain ⟨hnodup, hrest⟩ := ih.mp ⟨s', h⟩
      have hreadable := (isReadable_iff s.counter).mpr ⟨body, c, hp⟩
      refine ⟨⟨?_, hnodup⟩, ⟨hname, htable, hreadable⟩, fun other hother => ?_⟩
      · intro hmem
        obtain ⟨other, hother, heq⟩ := List.mem_map.mp hmem
        have hfree := (spec?_append_singleton hspecs).mp (hrest other hother).1
        exact hfree.2 heq.symm
      · obtain ⟨hfree, hothertable, hread⟩ := hrest other hother
        rw [isSome_table?_iff, htables, ← isSome_table?_iff] at hothertable
        exact ⟨((spec?_append_singleton hspecs).mp hfree).1, hothertable, hread⟩
    · rintro ⟨⟨hnew, hnodup⟩, ⟨hname, htable, hreadable⟩, hrest⟩
      obtain ⟨body, c, hp⟩ := (isReadable_iff s.counter).mp hreadable
      obtain ⟨_, htables, hspecs⟩ := Schema.addSpec_of_parseSource hname htable hp
      suffices h : ∃ s', addSpecs (s.addSpec spec.name spec.table spec.source).2 specs = .ok s' by
        obtain ⟨s', h⟩ := h
        exact ⟨s', hname, htable, body, c, hp, h⟩
      refine ih.mpr ⟨hnodup, fun other hother => ?_⟩
      obtain ⟨hfree, hothertable, hread⟩ := hrest other hother
      rw [isSome_table?_iff, ← htables, ← isSome_table?_iff] at hothertable
      refine ⟨(spec?_append_singleton hspecs).mpr ⟨hfree, ?_⟩, hothertable, hread⟩
      intro heq
      exact hnew (List.mem_map.mpr ⟨other, hother, heq.symm⟩)

/-- What was registered stands behind what was there, in the order of the list. -/
theorem addSpecs_lists {s s' : Schema} {specs : List Config.Spec} (h : addSpecs s specs = .ok s') :
    s'.tables = s.tables ∧ ∃ added, s'.specs = s.specs ++ added ∧
      List.Forall₂ Spec.Means specs added := by
  induction specs generalizing s with
  | nil =>
    cases h
    exact ⟨rfl, [], (List.append_nil _).symm, .nil⟩
  | cons spec specs ih =>
    obtain ⟨hname, htable, body, c, hp, h⟩ := addSpecs_cons_eq_ok_iff.mp h
    obtain ⟨_, htables', hspecs'⟩ := Schema.addSpec_of_parseSource hname htable hp
    obtain ⟨htables, added, hspecs, hmeans⟩ := ih h
    refine ⟨htables.trans htables',
      ⟨spec.name, spec.table, spec.source, body⟩ :: added, ?_, ?_⟩
    · rw [hspecs, hspecs', List.append_assoc, List.singleton_append]
    · exact .cons ⟨rfl, rfl, rfl, s.counter, c, hp⟩ hmeans

theorem map_name_fill (c : Config) :
    (c.tables.map Table.fill).map RowSpec.Table.name = c.tables.map Table.name := by
  rw [List.map_map]
  rfl

theorem schema_eq_ok_iff {c : Config} {s : Schema} : c.schema = .ok s ↔
    (∀ t ∈ c.tables, t.fill.Sound) ∧ (c.tables.map Table.name).Nodup ∧
      addSpecs (Schema.withTables (c.tables.map Table.fill)) c.specs = .ok s := by
  have hsound : (∀ t ∈ c.tables.map Table.fill, t.Sound) ↔ ∀ t ∈ c.tables, t.fill.Sound :=
    List.forall_mem_map
  constructor
  · intro h
    obtain ⟨tables, htables, h⟩ := ok_of_bind h
    obtain ⟨start, hstart, h⟩ := ok_of_bind h
    obtain ⟨rfl, hall⟩ := mapM_validate_eq_ok_iff.mp (Schema.ok_of_mapError htables)
    obtain ⟨hnodup, rfl⟩ := ofTables_eq_ok_iff.mp (Schema.ok_of_mapError hstart)
    rw [map_name_fill] at hnodup
    exact ⟨hsound.mp hall, hnodup, h⟩
  · rintro ⟨hall, hnodup, h⟩
    rw [← map_name_fill] at hnodup
    exact ok_bind (Schema.mapError_ok (mapM_validate_eq_ok_iff.mpr ⟨rfl, hsound.mpr hall⟩))
      (ok_bind (Schema.mapError_ok (ofTables_eq_ok_iff.mpr ⟨hnodup, rfl⟩)) h)

/-- The specs of a configuration, read against its tables. -/
theorem exists_addSpecs_withTables_iff {c : Config} (h : (c.tables.map Table.name).Nodup) :
    (∃ s, addSpecs (Schema.withTables (c.tables.map Table.fill)) c.specs = .ok s) ↔
      (c.specs.map Spec.name).Nodup ∧ ∀ spec ∈ c.specs,
        spec.table ∈ c.tables.map Table.name ∧ IsReadable spec.source := by
  rw [← map_name_fill] at h
  obtain ⟨htables, hspecs⟩ := lists_withTables h
  have hfree : ∀ name, (Schema.withTables (c.tables.map Table.fill)).spec? name = none := by
    intro name
    rw [Registry.Indexed.spec? (Schema.indexed _), hspecs]
    rfl
  simp only [exists_addSpecs_iff, isSome_table?_iff, htables, map_name_fill, hfree, true_and]

/-- A configuration makes a schema exactly if it is valid. The schema then lists the tables and the
specs that are meant, in the order of the configuration, and within a table a name stands for one
thing at most. -/
theorem schema_exact (c : Config) : ((∃ s, c.schema = .ok s) ↔ c.Valid) ∧
    ∀ s, c.schema = .ok s → List.Forall₂ Table.Means c.tables s.tables ∧
      List.Forall₂ Spec.Means c.specs s.specs ∧ ∀ t ∈ s.tables, ∀ name,
        (t.field? name = none ∨ t.parent? name = none) ∧
        (∀ f, t.field? name = some f ↔ f ∈ t.fields ∧ f.name = name) ∧
        ∀ p, t.parent? name = some p ↔ p ∈ t.parents ∧ p.name = name := by
  constructor
  · simp only [schema_eq_ok_iff, exists_and_left]
    constructor
    · rintro ⟨hsound, htables, hadd⟩
      obtain ⟨hspecs, hall⟩ := (exists_addSpecs_withTables_iff htables).mp hadd
      refine ⟨fun t ht => ?_, htables, hspecs, fun s hs => (hall s hs).1,
        fun s hs => (hall s hs).2⟩
      exact (exists_means_sound_iff t).mpr (hsound t ht)
    · rintro ⟨hsound, htables, hspecs, howners, hsources⟩
      refine ⟨fun t ht => ?_, htables, (exists_addSpecs_withTables_iff htables).mpr
        ⟨hspecs, fun s hs => ⟨howners s hs, hsources s hs⟩⟩⟩
      exact (exists_means_sound_iff t).mp (hsound t ht)
  · intro s h
    obtain ⟨hsound, hnodup, hadd⟩ := schema_eq_ok_iff.mp h
    obtain ⟨htables, added, hspecs, hmeans⟩ := addSpecs_lists hadd
    rw [← map_name_fill] at hnodup
    obtain ⟨hstart, hempty⟩ := lists_withTables hnodup
    rw [hstart] at htables
    rw [hempty, List.nil_append] at hspecs
    subst hspecs
    refine ⟨(forall₂_iff_eq_map Table.means_iff).mpr htables, hmeans, ?_⟩
    intro u hu name
    rw [htables] at hu
    obtain ⟨t, ht, rfl⟩ := List.mem_map.mp hu
    exact (hsound t ht).resolves name

/-- Most is left to defaults; `Boolean` is no name of a type, and no table is called `Person`. -/
def directory : Config where
  tables :=
    [⟨"User", none,
        [⟨"Id", some "number"⟩, ⟨"Active", some "Boolean"⟩, ⟨"Open", some "boolean"⟩], []⟩,
      ⟨"Account", some "Key", [⟨"Key", none⟩, ⟨"UserId", none⟩, ⟨"Boss", some "date"⟩],
        [⟨"User", none, none⟩, ⟨"Head", some "Person", some "Boss"⟩]⟩]
  specs := [⟨"Open", "User", "User.Open"⟩, ⟨"Owned", "Account", "Open(Account.User)"⟩]

def keyless : Config := ⟨[⟨"Account", none, [⟨"Id", none⟩], [⟨"User", none, none⟩]⟩], []⟩

theorem schema_exact_directory :
    (∃ s, directory.schema = .ok s ∧ s.tables =
        [⟨"User", "Id", [⟨"Id", .number⟩, ⟨"Active", .string⟩, ⟨"Open", .boolean⟩], []⟩,
          ⟨"Account", "Key", [⟨"Key", .string⟩, ⟨"UserId", .string⟩, ⟨"Boss", .date⟩],
            [⟨"User", "User", "UserId"⟩, ⟨"Head", "Person", "Boss"⟩]⟩] ∧
      directory.Valid ∧ List.Forall₂ Spec.Means directory.specs s.specs) ∧
    ¬ keyless.Valid := by
  constructor
  · have hrun : directory.schema.toOption.any (fun s => s.tables =
        [⟨"User", "Id", [⟨"Id", .number⟩, ⟨"Active", .string⟩, ⟨"Open", .boolean⟩], []⟩,
          ⟨"Account", "Key", [⟨"Key", .string⟩, ⟨"UserId", .string⟩, ⟨"Boss", .date⟩],
            [⟨"User", "User", "UserId"⟩, ⟨"Head", "Person", "Boss"⟩]⟩]) = true := by
      decide +kernel
    obtain ⟨s, hs, htables⟩ := ok_of_any hrun
    obtain ⟨hvalid, hlists⟩ := schema_exact directory
    exact ⟨s, hs, of_decide_eq_true htables, hvalid.mp ⟨s, hs⟩, (hlists s hs).2.1⟩
  · intro hvalid
    obtain ⟨s, hs⟩ := (schema_exact keyless).1.mpr hvalid
    have hfails : keyless.schema.toOption.isNone = true := by decide +kernel
    rw [hs] at hfails
    cases hfails

end Config

end RowSpec
