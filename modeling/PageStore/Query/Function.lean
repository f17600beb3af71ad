/-!
# Aggregate functions

The functions that an aggregate can compute over the rows of a group.
-/

namespace PageStore

/-- What an aggregate computes. -/
inductive Function where
  | min
  | max
  | sum
  | avg
  | count
  /-- The sum and the count, as two fields, so that parts can be combined later. -/
  | sumCount
  /-- The average of parts, each given as a sum and the count in the field after it. -/
  | partAvg
deriving DecidableEq, Repr, Inhabited

/-- The name of a function. -/
def Function.label : Function → String
  | min => "min"
  | max => "max"
  | sum => "sum"
  | avg => "avg"
  | count => "count"
  | sumCount => "sum_count"
  | partAvg => "sc_avg"

end PageStore
