import RowSpec.Schema.Registry

/-! Configurations: tables and specs as they are written down, with much left to defaults. -/
namespace RowSpec

structure Config.Field where
  name : String
  type? : Option String
  deriving DecidableEq, Repr

structure Config.Parent where
  name : String
  table? : Option String
  id? : Option String
  deriving DecidableEq, Repr

structure Config.Table where
  name : String
  id? : Option String
  fields : List Config.Field
  parents : List Config.Parent
  deriving DecidableEq, Repr

structure Config.Spec where
  name : String
  table : String
  source : String
  deriving DecidableEq, Repr

structure Config where
  tables : List Config.Table
  specs : List Config.Spec
  deriving DecidableEq, Repr

namespace Config

def Field.fill (f : Config.Field) : RowSpec.Field := ⟨f.name, (f.type?.map .ofName).getD .string⟩

/-- A parent leads to the table of its name, by the field of its name followed by `Id`. -/
def Parent.fill (p : Config.Parent) : RowSpec.Parent :=
  ⟨p.name, p.table?.getD p.name, p.id?.getD (p.name ++ "Id")⟩

def Table.fill (t : Config.Table) : RowSpec.Table :=
  ⟨t.name, t.id?.getD "Id", t.fields.map Field.fill, t.parents.map Parent.fill⟩

def addSpecs (schema : Schema) : List Config.Spec → Except Error Schema
  | [] => .ok schema
  | spec :: specs =>
    match schema.addSpec spec.name spec.table spec.source with
    | (.error e, _) => .error e
    | (.ok (), schema) => addSpecs schema specs

/-- All tables are filled in and checked before the first spec is read. -/
def schema (c : Config) : Except Error Schema := do
  let tables ← ((c.tables.map Table.fill).mapM RowSpec.Table.validate).mapError .schema
  let schema ← (Schema.ofTables tables).mapError .schema
  addSpecs schema c.specs

end Config

end RowSpec
