import RowSpec.Error
import RowSpec.Schema.Basic

/-! Work against a schema: registering specs, checking them, and compiling expressions. Reading an
expression spends node ids of the schema whether it succeeds or not. -/
namespace RowSpec

namespace Spec

/-- The body has to be a predicate over the rows of the spec's table. -/
def check (schema : Schema) (spec : Spec) : Except Error Unit := do
  (spec.body.checkBoolean schema ("spec " ++ spec.name)).mapError .typing
  (spec.body.checkScope schema spec.table).mapError .scope

def statement (schema : Schema) (spec : Spec) : Except Error Sql.Statement :=
  (Sql.select schema spec.table spec.body).mapError .compile

end Spec

namespace Registry

def readExpr (r : Registry) (source : String) : Except Error (Expr NodeId) × Registry :=
  let (result, counter) := parseSource r.counter source
  (result.mapError .source, { r with counter })

/-- Registers a spec. The name has to be new and the table known; only then is the source read. -/
def addSpec (r : Registry) (name table source : String) : Except Error Unit × Registry :=
  if r.specIndex.contains name then (.error (.schema (.duplicateSpec name)), r)
  else if !r.tableIndex.contains table then
    (.error (.schema (.unknownSpecTable name table)), r)
  else match r.readExpr source with
    | (.error e, r) => (.error e, r)
    | (.ok body, r) => (.ok (), r.push ⟨name, table, source, body⟩)

def readOver (r : Registry) (table source : String) : Except Error (Expr NodeId) × Registry :=
  if (r.table? table).isNone then (.error (.schema (.unknownTable table)), r)
  else r.readExpr source

variable {r : Registry}

theorem Indexed.readExpr (h : r.Indexed) (source : String) : (r.readExpr source).2.Indexed := h

theorem Indexed.readOver (h : r.Indexed) (table source : String) :
    (r.readOver table source).2.Indexed := by
  rw [Registry.readOver]
  split
  · exact h
  · exact h.readExpr source

theorem Indexed.addSpec (h : r.Indexed) (name table source : String) :
    (r.addSpec name table source).2.Indexed := by
  rw [Registry.addSpec]
  split
  · exact h
  · next hnew =>
    split
    · exact h
    · rcases hread : r.readExpr source with ⟨_ | body, read⟩ <;>
        obtain rfl : (r.readExpr source).2 = read := by rw [hread]
      · exact h.readExpr source
      · exact (h.readExpr source).push (Bool.eq_false_iff.mpr hnew)

end Registry

namespace Schema

def fresh (s : Schema) : NodeId × Schema := (s.counter.fresh, { s with counter := s.counter.next })

def readExpr (s : Schema) (source : String) : Except Error (Expr NodeId) × Schema :=
  s.after (·.readExpr source) (·.readExpr source)

def addSpec (s : Schema) (name table source : String) : Except Error Unit × Schema :=
  s.after (·.addSpec name table source) (·.addSpec name table source)

def readOver (s : Schema) (table source : String) : Except Error (Expr NodeId) × Schema :=
  s.after (·.readOver table source) (·.readOver table source)

/-- Checks the specs in order, up to the first that fails. -/
def check (s : Schema) : Except Error Unit := s.specs.forM (Spec.check s)

def selectExpr (s : Schema) (table : String) (e : Expr NodeId) : Except Error Sql.Statement := do
  (e.checkBoolean s "expression").mapError .typing
  (e.checkScope s table).mapError .scope
  (Sql.select s table e).mapError .compile

/-- Reads, checks and compiles a predicate over the rows of a table. -/
def compileSource (s : Schema) (table source : String) : Except Error Sql.Statement × Schema :=
  match s.readOver table source with
  | (.error e, s) => (.error e, s)
  | (.ok e, s) => (s.selectExpr table e, s)

end Schema

end RowSpec
