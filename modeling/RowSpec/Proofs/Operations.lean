import Mathlib.Data.List.Nodup
import RowSpec.Proofs.Registry
import RowSpec.Proofs.RoundTrip

/-! A schema in use: specs are registered, expressions are read and compiled, in any order and with
any outcome. No name is ever taken twice, so a look-up finds the one entry of a name. A spec stands
for what its source was read as when it was registered. All that an operation can do to the registry
is to add one spec behind those that are there. -/
namespace RowSpec

theorem firstRepeated_eq_none_iff {seen names : List String} :
    firstRepeated seen names = none ↔ names.Nodup ∧ ∀ name ∈ names, name ∉ seen := by
  induction names generalizing seen with
  | nil => simp [firstRepeated]
  | cons name names ih =>
    rw [firstRepeated]
    by_cases h : name ∈ seen
    · simp [h]
    · rw [if_neg h, ih, List.nodup_cons, List.forall_mem_cons]
      constructor
      · rintro ⟨hnodup, hnew⟩
        refine ⟨⟨fun hmem => hnew name hmem (by simp), hnodup⟩, h, fun x hx hseen => ?_⟩
        exact hnew x hx (List.mem_append_left _ hseen)
      · rintro ⟨⟨hname, hnodup⟩, _, hnew⟩
        refine ⟨hnodup, fun x hx hmem => ?_⟩
        rcases List.mem_append.mp hmem with hseen | hlast
        · exact hnew x hx hseen
        · exact hname (List.mem_singleton.mp hlast ▸ hx)

theorem find?_eq_some_iff_of_nodup {α : Type} {key : α → String} {xs : List α}
    (h : (xs.map key).Nodup) {k : String} {x : α} :
    xs.find? (key · == k) = some x ↔ x ∈ xs ∧ key x = k := by
  constructor
  · intro hx
    exact ⟨List.mem_of_find?_eq_some hx, by simpa using List.find?_some hx⟩
  · rintro ⟨hx, hk⟩
    have hsome : (xs.find? (key · == k)).isSome = true :=
      List.find?_isSome.mpr ⟨x, hx, beq_iff_eq.mpr hk⟩
    obtain ⟨y, hy⟩ := Option.isSome_iff_exists.mp hsome
    have hky : key y = k := by simpa using List.find?_some hy
    rw [hy, List.inj_on_of_nodup_map h (List.mem_of_find?_eq_some hy) hx (hky.trans hk.symm)]

/-- Where no name stands twice, an index holds the position of each name and no other. -/
theorem Index.Marks.getElem?_eq_some_iff {index : Index} {names : List String}
    (h : index.Marks names) (hn : names.Nodup) {name : String} {i : Nat} :
    index[name]? = some i ↔ names[i]? = some name := by
  rw [h, List.findIdx?_eq_some_iff_getElem, List.getElem?_eq_some_iff]
  constructor
  · rintro ⟨hi, hname, _⟩
    exact ⟨hi, beq_iff_eq.mp hname⟩
  · rintro ⟨hi, hname⟩
    refine ⟨hi, beq_iff_eq.mpr hname, fun j hj hother => ?_⟩
    have heq := beq_iff_eq.mp hother
    rw [← hname, hn.getElem_inj_iff] at heq
    omega

inductive Schema.Operation where
  | addSpec (name table source : String)
  | readExpr (source : String)
  | compileSource (table source : String)
  deriving DecidableEq, Repr

open Schema (Operation)

namespace Registry

variable {r : Registry}

def perform (r : Registry) : Operation → Registry
  | .addSpec name table source => (r.addSpec name table source).2
  | .readExpr source => (r.readExpr source).2
  | .compileSource table source => (r.readOver table source).2

def performAll (r : Registry) (operations : List Operation) : Registry :=
  operations.foldl perform r

/-- An operation moves the count of ids and no more, unless it registers a spec. -/
theorem perform_cases (r : Registry) (operation : Operation) :
    (∃ c, r.perform operation = { r with counter := c }) ∨
      ∃ spec c, operation = .addSpec spec.name spec.table spec.source ∧
        r.spec? spec.name = none ∧ (r.table? spec.table).isSome = true ∧
        parseSource r.counter spec.source = (.ok spec.body, c) ∧
        r.perform operation = ({ r with counter := c } : Registry).push spec := by
  cases operation with
  | addSpec name table source =>
    simp only [perform]
    rcases addSpec_outcome r name table source with
      ⟨_, h⟩ | ⟨_, _, h⟩ | ⟨hname, htable, c, ⟨e, _, h⟩ | ⟨body, hp, h⟩⟩
    · exact Or.inl ⟨r.counter, by rw [h]⟩
    · exact Or.inl ⟨r.counter, by rw [h]⟩
    · exact Or.inl ⟨c, by rw [h]⟩
    · exact Or.inr ⟨⟨name, table, source, body⟩, c, rfl, hname, htable, hp, by rw [h]⟩
  | readExpr source => exact Or.inl ⟨_, rfl⟩
  | compileSource table source =>
    refine Or.inl ?_
    simp only [perform, readOver]
    split
    · exact ⟨r.counter, rfl⟩
    · exact ⟨_, rfl⟩

structure Consistent (r : Registry) : Prop where
  indexed : r.Indexed
  tables : (r.tables.map Table.name).Nodup
  specs : (r.specs.map Spec.name).Nodup
  owners : ∀ spec ∈ r.specs, ∃ t ∈ r.tables, t.name = spec.table

theorem Consistent.table?_eq_some_iff (h : r.Consistent) {name : String} {t : Table} :
    r.table? name = some t ↔ t ∈ r.tables ∧ t.name = name := by
  rw [h.indexed.table?]
  exact find?_eq_some_iff_of_nodup h.tables

theorem Consistent.spec?_eq_some_iff (h : r.Consistent) {name : String} {spec : Spec} :
    r.spec? name = some spec ↔ spec ∈ r.specs ∧ spec.name = name := by
  rw [h.indexed.spec?]
  exact find?_eq_some_iff_of_nodup h.specs

theorem Indexed.spec?_of_isPrefix {r' : Registry} (h : r.Indexed) (h' : r'.Indexed)
    (hspecs : r.specs <+: r'.specs) {name : String} {spec : Spec}
    (hs : r.spec? name = some spec) : r'.spec? name = some spec := by
  rw [h.spec?] at hs
  rw [h'.spec?]
  exact hspecs.find?_eq_some hs

theorem consistent_of_ofTables {tables : List Table} (h : ofTables tables = .ok r) :
    r.Consistent ∧ r.tables = tables ∧ r.specs = [] := by
  have hindexed := indexed_of_ofTables h
  rcases ofTables_cases tables with ⟨name, _, herror⟩ | ⟨hnone, index, hok⟩
  · rw [herror] at h
    cases h
  · rw [hok] at h
    cases h
    exact ⟨⟨hindexed, (firstRepeated_eq_none_iff.mp hnone).1, List.nodup_nil, by simp⟩, rfl, rfl⟩

theorem Consistent.perform (h : r.Consistent) (operation : Operation) :
    (r.perform operation).Consistent := by
  rcases perform_cases r operation with ⟨c, hr⟩ | ⟨spec, c, _, hname, htable, _, hr⟩
  · rw [hr]
    exact ⟨h.indexed, h.tables, h.specs, h.owners⟩
  · rw [hr]
    have hnew : r.specIndex.contains spec.name = false := by
      rw [← isSome_spec?, hname]
      rfl
    have hfree : spec.name ∉ r.specs.map Spec.name := by
      rw [← h.indexed.2.contains_iff, hnew]
      exact Bool.false_ne_true
    refine ⟨Indexed.push h.indexed hnew, h.tables, ?_, ?_⟩
    · change ((r.specs ++ [spec]).map Spec.name).Nodup
      rw [List.map_append, List.map_singleton]
      exact h.specs.append (List.nodup_singleton _) (List.disjoint_singleton.mpr hfree)
    · obtain ⟨t, ht⟩ := Option.isSome_iff_exists.mp htable
      refine List.forall_mem_append.mpr ⟨h.owners, List.forall_mem_singleton.mpr ?_⟩
      exact ⟨t, h.table?_eq_some_iff.mp ht⟩

theorem Consistent.performAll (h : r.Consistent) (operations : List Operation) :
    (r.performAll operations).Consistent := by
  induction operations generalizing r with
  | nil => exact h
  | cons operation operations ih => exact ih (h.perform operation)

theorem kept_perform (r : Registry) (operation : Operation) :
    (r.perform operation).tables = r.tables ∧ r.specs <+: (r.perform operation).specs := by
  rcases perform_cases r operation with ⟨c, h⟩ | ⟨spec, c, _, _, _, _, h⟩
  · rw [h]
    exact ⟨rfl, List.prefix_refl _⟩
  · rw [h]
    exact ⟨rfl, List.prefix_append _ _⟩

theorem kept_performAll (r : Registry) (operations : List Operation) :
    (r.performAll operations).tables = r.tables ∧
      r.specs <+: (r.performAll operations).specs := by
  induction operations generalizing r with
  | nil => exact ⟨rfl, List.prefix_refl _⟩
  | cons operation operations ih =>
    obtain ⟨htables, hspecs⟩ := kept_perform r operation
    obtain ⟨htables', hspecs'⟩ := ih (r.perform operation)
    exact ⟨htables'.trans htables, hspecs.trans hspecs'⟩

/-- A spec that was not there before has been registered on the way, under its own name and when the
name was free. -/
theorem registered_on_the_way (r : Registry) (operations : List Operation) :
    ∀ spec ∈ (r.performAll operations).specs, spec ∈ r.specs ∨ ∃ before behind c,
      operations = before ++ .addSpec spec.name spec.table spec.source :: behind ∧
        (r.performAll before).spec? spec.name = none ∧
        parseSource (r.performAll before).counter spec.source = (.ok spec.body, c) := by
  induction operations generalizing r with
  | nil => exact fun spec hs => Or.inl hs
  | cons operation operations ih =>
    intro spec hs
    rcases ih (r.perform operation) spec hs with hs | ⟨before, behind, c, rfl, hname, hp⟩
    · rcases perform_cases r operation with ⟨c, h⟩ | ⟨added, c, rfl, hname, _, hp, h⟩
      · rw [h] at hs
        exact Or.inl hs
      · rw [h] at hs
        rcases List.mem_append.mp hs with hs | hs
        · exact Or.inl hs
        · obtain rfl := List.mem_singleton.mp hs
          exact Or.inr ⟨[], operations, c, rfl, hname, hp⟩
    · exact Or.inr ⟨operation :: before, behind, c, rfl, hname, hp⟩

theorem addSpec_of_parseSource {name table source : String} {body : Expr NodeId} {c : Counter}
    (hname : r.spec? name = none) (htable : (r.table? table).isSome = true)
    (hp : parseSource r.counter source = (.ok body, c)) : r.addSpec name table source =
      (.ok (), ({ r with counter := c } : Registry).push ⟨name, table, source, body⟩) := by
  rcases addSpec_outcome r name table source with
    ⟨hsome, _⟩ | ⟨_, hnone, _⟩ | ⟨_, _, c', ⟨e, hp', _⟩ | ⟨body', hp', hr⟩⟩
  · rw [hname] at hsome; cases hsome
  · rw [hnone] at htable; cases htable
  · rw [hp] at hp'; cases hp'
  · rw [hp] at hp'; cases hp'; exact hr

theorem addSpec_eq_ok {name table source : String} (h : (r.addSpec name table source).1 = .ok ()) :
    r.spec? name = none ∧ (r.table? table).isSome = true ∧ ∃ body c,
      parseSource r.counter source = (.ok body, c) ∧ (r.addSpec name table source).2 =
        ({ r with counter := c } : Registry).push ⟨name, table, source, body⟩ := by
  rcases addSpec_outcome r name table source with
    ⟨_, hr⟩ | ⟨_, _, hr⟩ | ⟨hname, htable, c, ⟨e, _, hr⟩ | ⟨body, hp, hr⟩⟩
  · rw [hr] at h; cases h
  · rw [hr] at h; cases h
  · rw [hr] at h; cases h
  · exact ⟨hname, htable, body, c, hp, by rw [hr]⟩

/-- A registration fails for one of three reasons, and then moves the count of ids at most. -/
theorem addSpec_eq_error {name table source : String} {error : Error}
    (h : (r.addSpec name table source).1 = .error error) :
    ((error = .schema (.duplicateSpec name) ∧ (r.spec? name).isSome = true) ∨
      (error = .schema (.unknownSpecTable name table) ∧ r.table? table = none) ∨
      ∃ e, error = .source e ∧ (parseSource r.counter source).1 = .error e) ∧
    ∃ c, (r.addSpec name table source).2 = { r with counter := c } := by
  rcases addSpec_outcome r name table source with
    ⟨hname, hr⟩ | ⟨_, htable, hr⟩ | ⟨_, _, c, ⟨e, hp, hr⟩ | ⟨body, _, hr⟩⟩
  · rw [hr] at h ⊢
    cases h
    exact ⟨Or.inl ⟨rfl, hname⟩, r.counter, rfl⟩
  · rw [hr] at h ⊢
    cases h
    exact ⟨Or.inr (Or.inl ⟨rfl, htable⟩), r.counter, rfl⟩
  · rw [hr] at h ⊢
    cases h
    rw [hp]
    exact ⟨Or.inr (Or.inr ⟨e, rfl, rfl⟩), c, rfl⟩
  · rw [hr] at h
    cases h

end Registry

namespace Schema

/-- The schema behind an operation, whether it succeeds or not. -/
def perform (s : Schema) : Operation → Schema
  | .addSpec name table source => (s.addSpec name table source).2
  | .readExpr source => (s.readExpr source).2
  | .compileSource table source => (s.compileSource table source).2

def performAll (s : Schema) (operations : List Operation) : Schema := operations.foldl perform s

structure Extends (s t : Schema) : Prop where
  tables : t.tables = s.tables
  specs : s.specs <+: t.specs

variable {s t : Schema}

theorem compileSource_snd (s : Schema) (table source : String) :
    (s.compileSource table source).2 = (s.readOver table source).2 := by
  unfold compileSource
  split
  · next h => rw [h]
  · next h => rw [h]

theorem toRegistry_perform (s : Schema) (operation : Operation) :
    (s.perform operation).toRegistry = s.toRegistry.perform operation := by
  cases operation with
  | addSpec name table source => rfl
  | readExpr source => rfl
  | compileSource table source =>
    simp only [perform, compileSource_snd]
    rfl

theorem toRegistry_performAll (s : Schema) (operations : List Operation) :
    (s.performAll operations).toRegistry = s.toRegistry.performAll operations := by
  induction operations generalizing s with
  | nil => rfl
  | cons operation operations ih =>
    exact (ih (s.perform operation)).trans (by rw [toRegistry_perform]; rfl)

theorem Extends.spec? (h : s.Extends t) {name : String} {spec : Spec}
    (hs : s.spec? name = some spec) : t.spec? name = some spec :=
  s.indexed.spec?_of_isPrefix t.indexed h.specs hs

theorem extends_perform (s : Schema) (operation : Operation) :
    s.Extends (s.perform operation) := by
  obtain ⟨htables, hspecs⟩ := s.toRegistry.kept_perform operation
  rw [← toRegistry_perform] at htables hspecs
  exact ⟨htables, hspecs⟩

theorem extends_performAll (s : Schema) (operations : List Operation) :
    s.Extends (s.performAll operations) := by
  obtain ⟨htables, hspecs⟩ := s.toRegistry.kept_performAll operations
  rw [← toRegistry_performAll] at htables hspecs
  exact ⟨htables, hspecs⟩

theorem Built.consistent (h : s.Built) : s.Consistent := by
  induction h with
  | ofTables h => exact (Registry.consistent_of_ofTables (ofTables_eq_ok_iff.mp h)).1
  | addSpec _ name table source ih => exact ih.perform (.addSpec name table source)
  | readExpr _ source ih => exact ih.perform (.readExpr source)

/-- A registration that succeeds, as a step from one schema to the next. -/
theorem addSpec_eq_ok {name table source : String} (h : (s.addSpec name table source).1 = .ok ()) :
    s.spec? name = none ∧ (s.table? table).isSome = true ∧ ∃ body c,
      parseSource s.counter source = (.ok body, c) ∧
      (s.addSpec name table source).2.tables = s.tables ∧
      (s.addSpec name table source).2.specs = s.specs ++ [⟨name, table, source, body⟩] := by
  obtain ⟨hname, htable, body, c, hp, ht⟩ := @Registry.addSpec_eq_ok s.toRegistry _ _ _ h
  refine ⟨hname, htable, body, c, hp, ?_⟩
  rw [toRegistry_addSpec, ht]
  exact ⟨rfl, rfl⟩

theorem addSpec_of_parseSource {name table source : String} {body : Expr NodeId} {c : Counter}
    (hname : s.spec? name = none) (htable : (s.table? table).isSome = true)
    (hp : parseSource s.counter source = (.ok body, c)) :
    (s.addSpec name table source).1 = .ok () ∧
      (s.addSpec name table source).2.tables = s.tables ∧
      (s.addSpec name table source).2.specs = s.specs ++ [⟨name, table, source, body⟩] := by
  have hadd := Registry.addSpec_of_parseSource hname htable hp
  rw [toRegistry_addSpec, hadd]
  exact ⟨congrArg Prod.fst hadd, rfl, rfl⟩

/-- Whatever has been asked of a registry since it was set up: names are unique, both indexes hold
exactly the positions of the names and look-ups find what they name, every spec is over a table and
was read from its source when it was registered, a registration that fails leaves all of this as it
is, and what is registered never changes. -/
theorem registry_stays_consistent {tables : List Table} {start : Registry}
    (h : Registry.ofTables tables = .ok start) {operations : List Operation} {r : Registry}
    (hr : start.performAll operations = r) :
    (∃ s, ofTables tables = .ok s ∧ (s.performAll operations).toRegistry = r) ∧
    (r.tables = tables ∧ (r.tables.map Table.name).Nodup ∧ (r.specs.map Spec.name).Nodup) ∧
    (∀ name i, r.tableIndex[name]? = some i ↔ r.tables[i]?.map Table.name = some name) ∧
    (∀ name i, r.specIndex[name]? = some i ↔ r.specs[i]?.map Spec.name = some name) ∧
    (∀ name t, r.table? name = some t ↔ t ∈ r.tables ∧ t.name = name) ∧
    (∀ name spec, r.spec? name = some spec ↔ spec ∈ r.specs ∧ spec.name = name) ∧
    (∀ spec ∈ r.specs, (∃ t ∈ r.tables, t.name = spec.table) ∧ ∃ before behind c,
      operations = before ++ .addSpec spec.name spec.table spec.source :: behind ∧
        parseSource (start.performAll before).counter spec.source = (.ok spec.body, c)) ∧
    (∀ name table source error, (r.addSpec name table source).1 = .error error →
      ((error = .schema (.duplicateSpec name) ∧ ∃ spec ∈ r.specs, spec.name = name) ∨
        (error = .schema (.unknownSpecTable name table) ∧ ∀ t ∈ r.tables, t.name ≠ table) ∨
        ∃ e, error = .source e ∧ (parseSource r.counter source).1 = .error e) ∧
      (∃ c, (r.addSpec name table source).2 = { r with counter := c }) ∧
      ∀ name', (r.addSpec name table source).2.table? name' = r.table? name' ∧
        (r.addSpec name table source).2.spec? name' = r.spec? name') ∧
    (∀ name table source body c, (∀ spec ∈ r.specs, spec.name ≠ name) →
      (∃ t ∈ r.tables, t.name = table) → parseSource r.counter source = (.ok body, c) →
      (r.addSpec name table source).1 = .ok () ∧
      (r.addSpec name table source).2.tables = r.tables ∧
      (r.addSpec name table source).2.specs = r.specs ++ [⟨name, table, source, body⟩] ∧
      (r.addSpec name table source).2.counter = c) ∧
    ∀ later, (r.performAll later).tables = r.tables ∧ r.specs <+: (r.performAll later).specs ∧
      (∀ name, (r.performAll later).table? name = r.table? name) ∧
      ∀ name spec, r.spec? name = some spec → (r.performAll later).spec? name = some spec := by
  obtain ⟨hstart, htables, hempty⟩ := Registry.consistent_of_ofTables h
  have hconsistent : r.Consistent := hr ▸ hstart.performAll operations
  have hfind : ∀ name t, r.table? name = some t ↔ t ∈ r.tables ∧ t.name = name :=
    fun _ _ => hconsistent.table?_eq_some_iff
  have hfind' : ∀ name spec, r.spec? name = some spec ↔ spec ∈ r.specs ∧ spec.name = name :=
    fun _ _ => hconsistent.spec?_eq_some_iff
  refine ⟨?_, ⟨?_, hconsistent.tables, hconsistent.specs⟩, ?_, ?_, hfind, hfind', ?_, ?_, ?_, ?_⟩
  · refine ⟨ofRegistry start hstart.indexed, ofTables_eq_ok_iff.mpr h, ?_⟩
    rw [toRegistry_performAll]
    exact hr
  · rw [← hr, (start.kept_performAll operations).1, htables]
  · intro name i
    rw [← List.getElem?_map]
    exact hconsistent.indexed.1.getElem?_eq_some_iff hconsistent.tables
  · intro name i
    rw [← List.getElem?_map]
    exact hconsistent.indexed.2.getElem?_eq_some_iff hconsistent.specs
  · intro spec hspec
    refine ⟨hconsistent.owners spec hspec, ?_⟩
    rw [← hr] at hspec
    rcases start.registered_on_the_way operations spec hspec with
      hold | ⟨before, behind, c, hops, _, hp⟩
    · rw [hempty] at hold
      cases hold
    · exact ⟨before, behind, c, hops, hp⟩
  · intro name table source error herror
    obtain ⟨hreason, c, hc⟩ := Registry.addSpec_eq_error herror
    refine ⟨?_, ⟨c, hc⟩, fun name' => by rw [hc]; exact ⟨rfl, rfl⟩⟩
    refine hreason.imp (fun ⟨he, hname⟩ => ⟨he, ?_⟩)
      (Or.imp_left fun ⟨he, htable⟩ => ⟨he, fun t ht hname => ?_⟩)
    · obtain ⟨spec, hspec⟩ := Option.isSome_iff_exists.mp hname
      exact ⟨spec, (hfind' name spec).mp hspec⟩
    · rw [(hfind table t).mpr ⟨ht, hname⟩] at htable
      cases htable
  · rintro name table source body c hfree ⟨t, ht, htable⟩ hp
    have hname : r.spec? name = none := Option.eq_none_iff_forall_ne_some.mpr fun spec hspec =>
      hfree spec ((hfind' name spec).mp hspec).1 ((hfind' name spec).mp hspec).2
    have hknown : (r.table? table).isSome = true :=
      Option.isSome_iff_exists.mpr ⟨t, (hfind table t).mpr ⟨ht, htable⟩⟩
    rw [Registry.addSpec_of_parseSource hname hknown hp]
    exact ⟨rfl, rfl, rfl, rfl⟩
  · intro later
    have hlater := hconsistent.performAll later
    obtain ⟨hsame, hspecs⟩ := r.kept_performAll later
    refine ⟨hsame, hspecs, fun name => ?_, fun name spec hspec => ?_⟩
    · rw [hlater.indexed.table?, hsame, hconsistent.indexed.table?]
    · exact hconsistent.indexed.spec?_of_isPrefix hlater.indexed hspecs hspec

def offices : List Table :=
  [⟨"User", "Id", [⟨"Id", .number⟩, ⟨"Active", .boolean⟩], []⟩,
    ⟨"Account", "Id", [⟨"Id", .number⟩, ⟨"OwnerId", .number⟩, ⟨"Open", .boolean⟩],
      [⟨"Owner", "User", "OwnerId"⟩]⟩]

/-- Two registrations succeed. The others have a source that ends too early, a name that is taken,
no table, and a string that is not closed. -/
def day : List Operation :=
  [.addSpec "Busy" "User" "any(Account, Account.Open",
    .addSpec "Busy" "User" "any(Account, Account.Open)", .addSpec "Busy" "User" "User.Active",
    .addSpec "Calm" "Desk" "null", .readExpr "1 + 2 * 3", .readExpr "not (",
    .addSpec "Calm" "User" "'open", .compileSource "User" "Busy(User)",
    .addSpec "Calm" "User" "not Busy(User)"]

def office : Schema := (withTables offices).performAll day

theorem registry_stays_consistent_office : ∃ start, Registry.ofTables offices = .ok start ∧
    start.performAll day = office.toRegistry ∧ office.specs.map Spec.name = ["Busy", "Calm"] ∧
    office.specIndex["Calm"]? = some 1 ∧
    (∃ spec ∈ office.specs, office.spec? "Calm" = some spec ∧ ∃ before behind c,
      day = before ++ .addSpec spec.name spec.table spec.source :: behind ∧
        parseSource (start.performAll before).counter spec.source = (.ok spec.body, c)) ∧
    (office.toRegistry.addSpec "Calm" "User" "null").1 =
      .error (.schema (.duplicateSpec "Calm")) ∧
    (∃ c, (office.toRegistry.addSpec "Calm" "User" "null").2 =
      { office.toRegistry with counter := c }) ∧
    ∃ body, (office.toRegistry.addSpec "Idle" "User" "User.Active").2.specs =
      office.specs ++ [⟨"Idle", "User", "User.Active", body⟩] := by
  have hstart : Registry.ofTables offices = .ok (withTables offices).toRegistry :=
    ofTables_eq_ok_iff.mp (ofTables_withTables (by decide))
  have hoffice : (withTables offices).toRegistry.performAll day = office.toRegistry :=
    (toRegistry_performAll _ _).symm
  obtain ⟨_, _, _, hplaces, _, hfind, hspecs, herror, hok, _⟩ :=
    registry_stays_consistent hstart hoffice
  have hnames : office.specs.map Spec.name = ["Busy", "Calm"] := by decide +kernel
  have htaken : (office.toRegistry.addSpec "Calm" "User" "null").1 =
      .error (.schema (.duplicateSpec "Calm")) := by decide +kernel
  refine ⟨_, hstart, hoffice, hnames, ?_, ?_, htaken, (herror _ _ _ _ htaken).2.1, ?_⟩
  · rw [hplaces, ← List.getElem?_map, hnames]
    rfl
  · have hcalm : "Calm" ∈ office.specs.map Spec.name := by simp [hnames]
    obtain ⟨spec, hspec, hname⟩ := List.mem_map.mp hcalm
    exact ⟨spec, hspec, (hfind "Calm" spec).mpr ⟨hspec, hname⟩, (hspecs spec hspec).2⟩
  · have hread : (parseSource office.counter "User.Active").1.toOption.any
        (fun _ => true) = true := by decide +kernel
    obtain ⟨body, c, hp, _⟩ := parseSource_of_any hread
    exact ⟨body, (hok _ _ _ body c (by decide +kernel) (by decide +kernel) hp).2.2.1⟩

end Schema

end RowSpec
