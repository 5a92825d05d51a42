import RowSpec.Sql.Term
import RowSpec.Text.Basic

/-! Statements: a selection from a table and its joins, behind the common table expressions that it
draws on. -/
namespace RowSpec.Sql

inductive JoinKind where
  | inner
  | left
  deriving DecidableEq, Repr

def JoinKind.render : JoinKind → String
  | .inner => "INNER JOIN"
  | .left => "LEFT JOIN"

structure Join where
  kind : JoinKind
  table : String
  rename? : Option String
  left : Column
  right : Column
  deriving DecidableEq, Repr

namespace Join

def key (j : Join) : String := j.rename?.getD j.table

def render (j : Join) : String :=
  j.kind.render ++ " " ++ bracket j.table ++
    (match j.rename? with
      | some name => " " ++ bracket name
      | none => "") ++
    " ON " ++ j.left.render ++ " = " ++ j.right.render

end Join

structure Selection where
  table : String
  joins : List Join
  condition : Term
  deriving DecidableEq, Repr

/-- A common table expression: the ids of the selected rows, each with a marker that is 1. -/
structure Cte where
  name : String
  distinct : Bool
  id : Column
  marker : String
  body : Selection
  deriving DecidableEq, Repr

def Cte.render (c : Cte) : String :=
  Text.joinWith "\n" <|
    [bracket c.name ++ " AS (",
      "SELECT" ++ (if c.distinct then " DISTINCT " else " ") ++ c.id.render ++ ", 1 " ++
        bracket c.marker,
      "FROM " ++ bracket c.body.table] ++
    c.body.joins.map Join.render ++
    ["WHERE " ++ c.body.condition.render, ")"]

structure Statement where
  ctes : List Cte
  body : Selection
  deriving DecidableEq, Repr

def Statement.render (s : Statement) : String :=
  Text.joinWith "\n" <|
    (if s.ctes = [] then [] else ["WITH " ++ Text.joinWith ",\n" (s.ctes.map Cte.render)]) ++
    ["SELECT " ++ bracket s.body.table ++ ".* FROM " ++ bracket s.body.table] ++
    s.body.joins.map Join.render ++
    ["WHERE " ++ s.body.condition.render]

end RowSpec.Sql
