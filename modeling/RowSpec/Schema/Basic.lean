import RowSpec.Expr.Basic
import RowSpec.Schema.Index
import RowSpec.Schema.Table

/-! A schema: tables, the specs registered over them, and the count of node ids spent on
expressions read against it. -/
namespace RowSpec

structure Spec where
  name : String
  table : String
  source : String
  body : Expr NodeId
  deriving Inhabited, Repr

/-- Tables and specs in the order in which they came, and where in that order each name stands. -/
structure Registry where
  tables : List Table
  specs : List Spec
  tableIndex : Index
  specIndex : Index
  counter : Counter

namespace Registry

def empty : Registry := ⟨[], [], ∅, ∅, .start⟩

/-- The table at the place of a name. The place is taken as it is, without a look at how many tables
there are. -/
def table? (r : Registry) (name : String) : Option Table :=
  r.tableIndex[name]?.map (r.tables[·]!)

def spec? (r : Registry) (name : String) : Option Spec := r.specIndex[name]?.map (r.specs[·]!)

def addTable (r : Registry) (t : Table) : Except SchemaError Registry :=
  if r.tableIndex.contains t.name then .error (.duplicateTable t.name)
  else .ok { r with
    tableIndex := r.tableIndex.insert t.name r.tables.length
    tables := r.tables ++ [t] }

def ofTables (tables : List Table) : Except SchemaError Registry := tables.foldlM addTable empty

def push (r : Registry) (spec : Spec) : Registry :=
  { r with
    specIndex := r.specIndex.insert spec.name r.specs.length
    specs := r.specs ++ [spec] }

def Indexed (r : Registry) : Prop :=
  r.tableIndex.Marks (r.tables.map Table.name) ∧ r.specIndex.Marks (r.specs.map Spec.name)

theorem indexed_empty : empty.Indexed := ⟨Index.marks_nil, Index.marks_nil⟩

theorem Indexed.addTable {r r' : Registry} (h : r.Indexed) {t : Table}
    (ht : r.addTable t = .ok r') : r'.Indexed := by
  rw [Registry.addTable] at ht
  split at ht
  · cases ht
  · next hnew =>
    cases ht
    refine ⟨?_, h.2⟩
    have hmarks := h.1.insert (Bool.eq_false_iff.mpr hnew)
    rwa [List.length_map, ← List.map_singleton, ← List.map_append] at hmarks

theorem Indexed.push {r : Registry} (h : r.Indexed) {spec : Spec}
    (hnew : r.specIndex.contains spec.name = false) : (r.push spec).Indexed := by
  refine ⟨h.1, ?_⟩
  have hmarks := h.2.insert hnew
  rwa [List.length_map, ← List.map_singleton, ← List.map_append] at hmarks

theorem Indexed.foldlM_addTable {r r' : Registry} (h : r.Indexed) {tables : List Table}
    (ht : tables.foldlM Registry.addTable r = .ok r') : r'.Indexed := by
  induction tables generalizing r with
  | nil => cases ht; exact h
  | cons t tables ih =>
    rw [List.foldlM_cons] at ht
    cases hr : r.addTable t with
    | error e => rw [hr] at ht; cases ht
    | ok next =>
      rw [hr] at ht
      exact ih (h.addTable hr) ht

theorem Indexed.table? {r : Registry} (h : r.Indexed) (name : String) :
    r.table? name = r.tables.find? (·.name == name) := h.1.fetch name

theorem Indexed.spec? {r : Registry} (h : r.Indexed) (name : String) :
    r.spec? name = r.specs.find? (·.name == name) := h.2.fetch name

theorem indexed_of_ofTables {tables : List Table} {r : Registry} (h : ofTables tables = .ok r) :
    r.Indexed := indexed_empty.foldlM_addTable h

end Registry

/-- A registry whose indexes are right. -/
structure Schema extends Registry where
  tablesIndexed : tableIndex.Marks (tables.map Table.name)
  specsIndexed : specIndex.Marks (specs.map Spec.name)

namespace Schema

theorem indexed (s : Schema) : s.toRegistry.Indexed := ⟨s.tablesIndexed, s.specsIndexed⟩

def ofRegistry (r : Registry) (h : r.Indexed) : Schema := ⟨r, h.1, h.2⟩

def empty : Schema := ofRegistry .empty Registry.indexed_empty

def ofTables (tables : List Table) : Except SchemaError Schema :=
  match h : Registry.ofTables tables with
  | .error e => .error e
  | .ok r => .ok (ofRegistry r (Registry.indexed_of_ofTables h))

def after {α : Type} (s : Schema) (operation : Registry → α × Registry)
    (h : ∀ {r}, r.Indexed → (operation r).2.Indexed) : α × Schema :=
  let outcome := operation s.toRegistry
  (outcome.1, ofRegistry outcome.2 (h s.indexed))

end Schema

end RowSpec
