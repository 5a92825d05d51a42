import RowSpec.Sql.Statement

/-! A statement under way: the table that it selects from, and the joins and common table
expressions asked for so far, in the order of first use. -/
namespace RowSpec.Sql

/-- The rows of `table` go by the name `rename?`, if there is one. -/
structure Draft where
  table : String
  rename? : Option String
  joins : List Join
  ctes : List Cte
  deriving DecidableEq, Repr

namespace Draft

def ofTable (table : String) : Draft := ⟨table, none, [], []⟩

def ofRow (table name : String) : Draft := ⟨table, some name, [], []⟩

def root (d : Draft) : String := d.rename?.getD d.table

def addJoin (d : Draft) (j : Join) : Draft :=
  if d.joins.any (·.key == j.key) then d else { d with joins := d.joins ++ [j] }

/-- Adds a common table expression unless one of the same text is there. -/
def addCte (d : Draft) (c : Cte) : Draft :=
  if d.ctes.any (·.render == c.render) then d else { d with ctes := d.ctes ++ [c] }

def addJoins (d : Draft) (joins : List Join) : Draft := joins.foldl addJoin d

def addCtes (d : Draft) (ctes : List Cte) : Draft := ctes.foldl addCte d

def absorb (d nested : Draft) : Draft := (d.addCtes nested.ctes).addJoins nested.joins

def statement (d : Draft) (condition : Term) : Statement :=
  ⟨d.ctes, ⟨d.table, d.joins, condition⟩⟩

end Draft

end RowSpec.Sql
