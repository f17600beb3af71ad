import PageStore.Lock.Holders
import PageStore.Query.Aggregate
import PageStore.Table.Catalog

/-!
# Plans

A plan is a tree of operators that give rows: a list of given rows, a scan of a table, an aggregate
of the rows of another plan, or the insertion or deletion of the rows of another plan, which gives
one row with their number.  A plan does not change while it runs; what changes is its state
(`Plan.State`), which has the shape of the plan.

The functions that build a plan refuse one that cannot run: an aggregate that the rows below do not
allow, or an insertion of rows that the table cannot hold.
-/

namespace PageStore

/-- A tree of operators. -/
inductive Plan where
  | list (schema : Schema) (rows : List Row)
  | scan (file : HeapFile) (schema : Schema) (txn : TxnId) (mode : LockMode)
  | aggregate (child : Plan) (agg : Aggregation) (schema : Schema)
  | insert (child : Plan) (txn : TxnId) (table : TableId)
  | delete (child : Plan) (txn : TxnId)
deriving Repr, Inhabited

/-- Where a scan is: the next page to fetch, and what is left of the rows of the last one. -/
structure Cursor where
  nextPage : Nat
  pending : List Row
deriving DecidableEq, Repr, Inhabited

/-- How far an insertion or deletion is. -/
inductive Progress where
  | closed
  | running
  | done
deriving DecidableEq, Repr, Inhabited

namespace Plan

/-- The schema of a row that holds a number of rows. -/
def countSchema : Schema := ⟨[⟨.int, some "count"⟩]⟩

/-- The schema of the rows that a plan gives. -/
def schema : Plan → Schema
  | list schema _ => schema
  | scan _ schema _ _ => schema
  | aggregate _ _ schema => schema
  | insert .. | delete .. => countSchema

/-- The state of a plan: for a list how many rows were given, for a scan where it is, for an
aggregate the rows that are left to give, and for an insertion or deletion how far it is, each
`none` or `closed` before the plan is opened; and below these the states of the plan's parts. -/
def State : Plan → Type
  | list .. => Option Nat
  | scan .. => Option Cursor
  | aggregate child .. => Option (List Row) × State child
  | insert child .. => Progress × State child
  | delete child .. => Progress × State child

/-- The state of a plan that was never opened. -/
def initial : (plan : Plan) → plan.State
  | list .. => (none : Option Nat)
  | scan .. => (none : Option Cursor)
  | aggregate child .. => ((none : Option (List Row)), initial child)
  | insert child .. => (Progress.closed, initial child)
  | delete child .. => (Progress.closed, initial child)

/-- A scan of a table, whose columns are labelled if a label is given. -/
def scanOf (catalog : Catalog) (table : TableId) (label : Option String) (txn : TxnId)
    (mode : LockMode) : Except Error Plan := do
  let file ← catalog.file table
  let schema := match label with
    | some label => file.schema.labelled label
    | none => file.schema
  return scan file schema txn mode

/-- An aggregate of the rows of a plan. -/
def aggregateOf (child : Plan) (agg : Aggregation) : Except Error Plan := do
  return aggregate child agg (← agg.outputSchema child.schema)

/-- An insertion of the rows of a plan into a table. -/
def insertOf (catalog : Catalog) (child : Plan) (txn : TxnId) (table : TableId) :
    Except Error Plan := do
  let file ← catalog.file table
  if child.schema.agrees file.schema then return insert child txn table
  else throw (.sourceMismatch child.schema table file.schema)

end Plan

end PageStore
