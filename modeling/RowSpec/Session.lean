import RowSpec.Config.File
import RowSpec.Text.Blank

/-! A dialogue about one schema: each line is a command, or an expression to be compiled over the
root table. -/
namespace RowSpec

inductive Command where
  | help
  | quit
  | showTable
  | setTable (name : String)
  | listSpecs
  | showSpec (name : String)
  | check
  | expression (source : String)
  deriving DecidableEq, Repr

namespace Command

/-- The command of a name and the text behind it, if there is any. What is not known asks for
help. -/
def ofWords (name : String) (argument : Option String) : Command :=
  match name, argument with
  | "help", _ | "h", _ => .help
  | "quit", _ | "q", _ => .quit
  | "table", none | "t", none => .showTable
  | "table", some table | "t", some table => .setTable table
  | "specs", _ => .listSpecs
  | "spec", some spec => .showSpec spec
  | "check", _ => .check
  | _, _ => .help

def ofLine? (line : String) : Option Command :=
  match Text.trim line.toList with
  | [] => none
  | ':' :: cs =>
    let (name, rest) := Text.splitAtBlank cs
    some (ofWords (String.ofList name) (rest.map fun cs => String.ofList (Text.trim cs)))
  | cs => some (.expression (String.ofList cs))

end Command

/-- The table that expressions are over, if there is one, is a table of the schema. -/
structure Session where
  schema : Schema
  root? : Option String

namespace Session

def ofSchema (schema : Schema) : Session := ⟨schema, schema.tables.head?.map Table.name⟩

def helpText : String :=
  "Commands:\n" ++
  "  :table [name]   show or set the root table\n" ++
  "  :specs          list registered specs\n" ++
  "  :spec <name>    check and compile a spec\n" ++
  "  :check          check every spec\n" ++
  "  :help           show this help\n" ++
  "  :quit           exit\n" ++
  "Anything else is compiled as an expression over the root table.\n"

def failure (message : String) : String := "✗ " ++ message ++ "\n"

def answer : Except Error Sql.Statement → String
  | .ok statement => statement.render ++ "\n"
  | .error e => failure e.message

def noRoot : String := "no root table; use :table <name>\n"

def rootLine (table : String) : String := "root table: " ++ table ++ "\n"

def specLine (spec : Spec) : String :=
  "  " ++ spec.name ++ " on " ++ spec.table ++ ": " ++ spec.source ++ "\n"

/-- What is printed for a command, and how the session goes on; it ends at `quit`. -/
def respond (s : Session) : Command → Option (String × Session)
  | .help => some (helpText, s)
  | .quit => none
  | .showTable => some ((s.root?.map rootLine).getD noRoot, s)
  | .setTable name =>
    if (s.schema.table? name).isSome then some (rootLine name, { s with root? := some name })
    else some (failure ("table not found: " ++ name), s)
  | .listSpecs => some (String.join (s.schema.specs.map specLine), s)
  | .showSpec name =>
    match s.schema.spec? name with
    | none => some (failure ("spec not found: " ++ name), s)
    | some spec =>
      some (answer ((spec.check s.schema).bind fun _ => spec.statement s.schema), s)
  | .check =>
    match s.schema.check with
    | .ok () => some ("✓ " ++ toString s.schema.specs.length ++ " specs checked\n", s)
    | .error e => some (failure e.message, s)
  | .expression source =>
    match s.root? with
    | none => some (noRoot, s)
    | some table =>
      let (result, schema) := s.schema.compileSource table source
      some (answer result, { s with schema })

def hear (s : Session) (line : String) : Option (String × Session) :=
  match Command.ofLine? line with
  | none => some ("", s)
  | some command => s.respond command

end Session

end RowSpec
