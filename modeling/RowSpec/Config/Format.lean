import RowSpec.Config.Basic
import RowSpec.Json.Shape
import RowSpec.Json.Text

/-! Configurations as texts: the keys of the five records, and what may be left out. -/
namespace RowSpec.Config

open Json

section

variable (codec : Codec)

def fieldShape : Shape Config.Field where
  name := "FieldConfig"
  keys :=
    [.string codec "name" Field.name fun f name => { f with name := name },
      .optional codec "type" Field.type? fun f type? => { f with type? := type? }]
  blank := ⟨"", none⟩

def parentShape : Shape Config.Parent where
  name := "ParentConfig"
  keys :=
    [.string codec "name" Parent.name fun p name => { p with name := name },
      .optional codec "table" Parent.table? fun p table? => { p with table? := table? },
      .optional codec "id" Parent.id? fun p id? => { p with id? := id? }]
  blank := ⟨"", none, none⟩

def tableShape : Shape Config.Table where
  name := "TableConfig"
  keys :=
    [.string codec "table" Table.name fun t name => { t with name := name },
      .optional codec "id" Table.id? fun t id? => { t with id? := id? },
      .list codec "fields" true (fieldShape codec) Table.fields
        fun t fields => { t with fields := fields },
      .list codec "parents" false (parentShape codec) Table.parents
        fun t parents => { t with parents := parents }]
  blank := ⟨"", none, [], []⟩

def specShape : Shape Config.Spec where
  name := "SpecConfig"
  keys :=
    [.string codec "name" Spec.name fun s name => { s with name := name },
      .string codec "table" Spec.table fun s table => { s with table := table },
      .string codec "spec" Spec.source fun s source => { s with source := source }]
  blank := ⟨"", "", ""⟩

def shape : Shape Config where
  name := "SchemaConfig"
  keys :=
    [.list codec "tables" true (tableShape codec) Config.tables
        fun c tables => { c with tables := tables },
      .list codec "specs" false (specShape codec) Config.specs
        fun c specs => { c with specs := specs }]
  blank := ⟨[], []⟩

def encode (c : Config) : String := String.ofList ((shape codec).write codec c)

end

def toJson (c : Config) : String := c.encode Json.codec

end RowSpec.Config
