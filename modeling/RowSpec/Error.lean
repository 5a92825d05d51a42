import RowSpec.Expr.Source
import RowSpec.Schema.Table
import RowSpec.Scope
import RowSpec.Sql.Compile
import RowSpec.Typing

/-! All that can be wrong with a source or a schema. -/
namespace RowSpec

inductive Error where
  | source (e : SourceError)
  | typing (e : TypeError)
  | scope (e : ScopeError)
  | compile (e : Sql.CompileError)
  | schema (e : SchemaError)
  deriving DecidableEq, Repr

def Error.message : Error → String
  | .source e => e.message
  | .typing e => e.message
  | .scope e => e.message
  | .compile e => e.message
  | .schema e => e.message

end RowSpec
