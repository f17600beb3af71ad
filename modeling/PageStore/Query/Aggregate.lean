import PageStore.Dictionary
import PageStore.Record.Checked

/-!
# Aggregates

An aggregate keeps one tally for each group of rows.  Rows are told into groups by the field that
they are grouped by, or are all one group; the groups stay in the order in which they were first
met.  When all rows are tallied each group gives one row: the field that it was grouped by, if
there is one, and what the function makes of its tally.

A value that an integer field cannot hold is an error.
-/

namespace PageStore

/-- What is known of the rows of one group. -/
structure Tally where
  count : Int
  sum : Int
  min : Option Int
  max : Option Int
deriving DecidableEq, Repr, Inhabited

namespace Tally

/-- Nothing is known yet. -/
def zero : Tally := ⟨0, 0, none, none⟩

/-- Counts a field, and adds it if it is an integer. -/
def add (tally : Tally) : Field → Tally
  | .text _ => { tally with count := tally.count + 1 }
  | .int value =>
    let v := value.toInt
    { count := tally.count + 1
      sum := tally.sum + v
      min := some (match tally.min with
        | some m => if v < m then v else m
        | none => v)
      max := some (match tally.max with
        | some m => if m < v then v else m
        | none => v) }

/-- Adds the sum and the count of a part. -/
def addPart (tally : Tally) : (sum count : Field) → Except Error Tally
  | .int sum, .int count =>
    .ok { tally with sum := tally.sum + sum.toInt, count := tally.count + count.toInt }
  | sum, count => .error (.partNotInt sum count)

/-- The values that a function makes of a tally. -/
def values (tally : Tally) : Function → List Int
  | .count => [tally.count]
  | .sum => [tally.sum]
  | .avg | .partAvg => [tally.sum.tdiv (if tally.count < 1 then 1 else tally.count)]
  | .min => [tally.min.getD 0]
  | .max => [tally.max.getD 0]
  | .sumCount => [tally.sum, tally.count]

/-- A value as a field, if an integer field can hold it. -/
def toField (function : Function) (value : Int) : Except Error Field :=
  if -2147483648 ≤ value ∧ value ≤ 2147483647 then .ok (.int (Int32.ofInt value))
  else .error (.overflow function value)

/-- The fields that a function makes of a tally. -/
def result (tally : Tally) (function : Function) : Except Error (List Field) :=
  (tally.values function).mapM (toField function)

end Tally

/-- How rows are aggregated. -/
structure Aggregation where
  /-- The position of the field that is aggregated. -/
  field : Nat
  /-- The position of the field that rows are grouped by. -/
  group : Option Nat
  function : Function
deriving DecidableEq, Repr, Inhabited

/-- The tallies of the groups met so far. -/
abbrev Groups := Dictionary (Option Field) Tally

namespace Aggregation

/-- The group of a row. -/
def key (agg : Aggregation) (row : Row) : Except Error (Option Field) :=
  match agg.group with
  | none => .ok none
  | some i => (row.fieldAt i).map some

/-- The tally of a group with one row more. -/
def tally (agg : Aggregation) (old : Tally) (row : Row) : Except Error Tally :=
  match agg.function with
  | .partAvg => do old.addPart (← row.fieldAt agg.field) (← row.fieldAt (agg.field + 1))
  | _ => do return old.add (← row.fieldAt agg.field)

/-- The groups with one row more. -/
def addRow (agg : Aggregation) (groups : Groups) (row : Row) : Except Error Groups := do
  let key ← agg.key row
  let tally ← agg.tally ((groups.get? key).getD .zero) row
  return groups.put key tally

/-- The rows that the groups give. -/
def results (agg : Aggregation) (groups : Groups) : Except Error (List Row) :=
  groups.entries.mapM fun (key, tally) => do
    return .ofFields (key.toList ++ (← tally.result agg.function))

/-- The names of the columns that a function gives. -/
def outputNames (function : Function) (name : String) : List String :=
  match function with
  | .sumCount => ["sum(" ++ name ++ ")", "count(" ++ name ++ ")"]
  | .partAvg => ["avg(" ++ name ++ ")"]
  | function => [function.label ++ "(" ++ name ++ ")"]

/-- Refuses an aggregation that rows of a schema do not allow. -/
def check (agg : Aggregation) (schema : Schema) : Except Error Unit := do
  let type ← schema.typeAt agg.field
  if type = .text ∧ agg.function ≠ .count then throw (.textAggregate agg.function)
  if agg.function = .partAvg then
    if (← schema.typeAt (agg.field + 1)) ≠ .int then throw (.countMissing agg.function agg.field)

/-- The column of the field that rows are grouped by. -/
def groupColumns (agg : Aggregation) (schema : Schema) : Except Error (List Column) :=
  match agg.group with
  | none => .ok []
  | some i => (schema.columnAt i).map fun column => [column]

/-- The schema of the rows that an aggregation gives. -/
def outputSchema (agg : Aggregation) (schema : Schema) : Except Error Schema := do
  agg.check schema
  let grouped ← agg.groupColumns schema
  let column ← schema.columnAt agg.field
  let outputs := (outputNames agg.function (column.name.getD "*")).map fun name =>
    (⟨.int, some name⟩ : Column)
  return ⟨grouped ++ outputs⟩

end Aggregation

end PageStore
