import Mathlib.Data.List.Nodup

/-!
# One SQL table of integers

Just enough of a relational engine for programs that keep one table with a primary
key and reach it with single statements: a value is an integer or `NULL`, a
statement that names a column the table does not have is an error, a row whose key
is `NULL` or taken violates the key constraint, and a statement that does not
succeed changes nothing.
-/

namespace Lib.Sql

/-- `NULL` is `none`. -/
abbrev Value := Option Int

abbrev Row := List Value

abbrev Table := List Row

/-- `CREATE TABLE`: the columns and the one that is `PRIMARY KEY NOT NULL`. -/
structure Schema where
  columns : List String
  key : String
deriving Repr

inductive Cond where
  | all
  | eq (column : String) (value : Int)
  | and (left right : Cond)
deriving DecidableEq, Repr

inductive Statement where
  | insert (values : Row)
  | update (sets : List (String × Value)) (cond : Cond)
  | delete (cond : Cond)
  | select (cond : Cond)
deriving DecidableEq, Repr

inductive Code where
  | ok
  | error
  | constraint
deriving DecidableEq, Repr

/-- What executing a statement gives: its code, the table afterwards and the rows
    selected. -/
structure Outcome where
  code : Code
  table : Table
  rows : List Row

namespace Schema

variable (schema : Schema)

def get (row : Row) (column : String) : Value :=
  row.getD (schema.columns.idxOf column) none

def set (row : Row) (column : String) (value : Value) : Row :=
  List.set row (schema.columns.idxOf column) value

end Schema

def Cond.columns : Cond → List String
  | .all => []
  | .eq column _ => [column]
  | .and left right => left.columns ++ right.columns

/-- Whether a row meets the clause; a comparison with `NULL` is not true. -/
def Cond.holds (schema : Schema) (row : Row) : Cond → Bool
  | .all => true
  | .eq column value => schema.get row column == some value
  | .and left right => left.holds schema row && right.holds schema row

def Schema.known (schema : Schema) (names : List String) : Bool :=
  names.all fun name => schema.columns.contains name

/-- The key constraint: no key is `NULL` and no two rows share one. -/
def Schema.keyed (schema : Schema) (table : Table) : Bool :=
  table.all (fun row => (schema.get row schema.key).isSome) &&
    decide (table.map fun row => schema.get row schema.key).Nodup

/-- The rows that meet the clause take the new values. -/
def Schema.assign (schema : Schema) (table : Table) (sets : List (String × Value))
    (cond : Cond) : Table :=
  table.map fun row =>
    if cond.holds schema row then sets.foldl (fun r s => schema.set r s.1 s.2) row else row

def exec (schema : Schema) (table : Table) : Statement → Outcome
  | .insert values =>
      if values.length ≠ schema.columns.length then ⟨.error, table, []⟩
      else if schema.keyed (table ++ [values]) then ⟨.ok, table ++ [values], []⟩
      else ⟨.constraint, table, []⟩
  | .update sets cond =>
      if schema.known (sets.map Prod.fst ++ cond.columns) then
        if schema.keyed (schema.assign table sets cond) then
          ⟨.ok, schema.assign table sets cond, []⟩
        else ⟨.constraint, table, []⟩
      else ⟨.error, table, []⟩
  | .delete cond =>
      if schema.known cond.columns then
        ⟨.ok, table.filter fun row => !cond.holds schema row, []⟩
      else ⟨.error, table, []⟩
  | .select cond =>
      if schema.known cond.columns then
        ⟨.ok, table, table.filter fun row => cond.holds schema row⟩
      else ⟨.error, table, []⟩

/-- An `UPDATE` that names an unknown column is refused. -/
theorem exec_update_unknown (schema : Schema) (table : Table) {sets : List (String × Value)}
    {cond : Cond} (h : schema.known (sets.map Prod.fst ++ cond.columns) = false) :
    exec schema table (.update sets cond) = ⟨.error, table, []⟩ := by
  simp [exec, h]

end Lib.Sql
