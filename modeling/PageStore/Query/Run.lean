import PageStore.Query.Plan
import PageStore.Store.Rows

/-!
# Running plans

`Plan.start`, `Plan.next` and `Plan.close` run a plan row by row.  They change the store and the
state of the plan; an operation that fails or has to wait leaves both as far as it came.

An aggregate takes all rows of its part when it is started.  An insertion or deletion takes them
when its row is first asked for; if that fails, what was done stays done, and asking again goes on
with the rows that are left.

Rows are taken until there are none, at most as many times as a bound allows that is computed
before (`Plan.supply`).  The bound is never reached: a scan meets the pages that its file has, and
those that are appended meanwhile, and each of these stays in the cache, dirty and locked, so there
are no more of them than the cache holds.
-/

namespace PageStore

/-- An operation on the store and the state of a plan. -/
abbrev Turn (σ : Type) := EStateM Stop (Store × σ)

namespace Turn

variable {σ χ α : Type}

/-- An operation on the store alone. -/
def inStore (op : Op α) : Turn σ α := fun (s, state) =>
  match op s with
  | .ok a s => .ok a (s, state)
  | .error stop s => .error stop (s, state)

/-- An operation on the state of a part. -/
def inChild {π : Type} (turn : Turn χ α) : Turn (π × χ) α := fun (s, state, child) =>
  match turn (s, child) with
  | .ok a (s, child) => .ok a (s, state, child)
  | .error stop (s, child) => .error stop (s, state, child)

/-- Fails. -/
def fail (e : Error) : Turn σ α := throw (.failed e)

/-- Succeeds or fails without touching anything. -/
def ofExcept (r : Except Error α) : Turn σ α := inStore (Op.ofExcept r)

/-- The state of the plan. -/
def state : Turn σ σ := do return (← get).2

/-- Replaces the state of the plan. -/
def setState (state : σ) : Turn σ Unit := modify fun (s, _) => (s, state)

/-- Takes rows until there are none, at most so many, and does something with each. -/
def pullAll (next : Turn σ (Option Row)) (step : α → Row → Turn σ α) :
    (bound : Nat) → α → Turn σ α
  | 0, a => pure a
  | bound + 1, a => do
    match ← next with
    | none => pure a
    | some row => pullAll next step bound (← step a row)

end Turn

/-- The length of the longest page that is cached or can be read. -/
def Store.longestPage (s : Store) : Nat :=
  ((s.catalog.values.map fun table => table.file.pageSize)
    ++ s.cache.values.map fun frame => frame.page.bytes.length).foldl max 0

/-- At least as many rows as a scan of a file can meet. -/
def Store.rowBound (s : Store) (file : HeapFile) : Nat :=
  ((s.disk.read file.path).length + s.capacity * s.longestPage + 1) * (8 * s.longestPage)

namespace Plan

open Turn

/-! ## Lists and scans -/

/-- The next row of a list. -/
def listNext (rows : List Row) : Turn (Option Nat) (Option Row) := do
  match ← state with
  | none => fail (.notOpen .list)
  | some given =>
    match rows[given]? with
    | none => return none
    | some row =>
      setState (some (given + 1))
      return some row

/-- The first row on the next pages of a file, at most so many pages. -/
def turnPages (file : HeapFile) (txn : TxnId) (mode : LockMode) :
    (pages : Nat) → (number : Nat) → Turn (Option Cursor) (Option Row)
  | 0, _ => return none
  | pages + 1, number => do
    let frame ← inStore (Store.fetch txn ⟨file.table, number⟩ mode)
    setState (some ⟨number + 1, []⟩)
    match ← ofExcept (frame.page.rows file.schema) with
    | [] => turnPages file txn mode pages (number + 1)
    | row :: rows =>
      setState (some ⟨number + 1, rows⟩)
      return some row

/-- The next row of a scan. -/
def scanNext (file : HeapFile) (txn : TxnId) (mode : LockMode) :
    Turn (Option Cursor) (Option Row) := do
  match ← state with
  | none => fail (.notOpen .scan)
  | some ⟨number, row :: rows⟩ =>
    setState (some ⟨number, rows⟩)
    return some row
  | some ⟨number, []⟩ =>
    let count ← inStore (Store.pageCount file)
    turnPages file txn mode (count - number) number

/-! ## Insertions and deletions -/

/-- Does something with every row of a part, and counts the rows. -/
def countAll {σ : Type} (next : Turn σ (Option Row)) (write : Row → Op Unit) (bound : Nat) :
    Turn σ Nat :=
  pullAll next (fun count row => do
    inStore (write row)
    return count + 1) bound 0

/-- The row that holds a number of rows, which is counted in 32 bits. -/
def countRow (count : Nat) : Row := .ofFields [.int (Int32.ofNat count)]

/-- The only row of an insertion or deletion. -/
def writeNext {σ : Type} (operator : Operator) (next : Turn σ (Option Row))
    (write : Row → Op Unit) (bound : σ → Store → Nat) :
    Turn (Progress × σ) (Option Row) := do
  let (s, progress, child) ← get
  match progress with
  | .closed => fail (.notOpen operator)
  | .done => return none
  | .running =>
    let count ← inChild (countAll next write (bound child s))
    modify fun (s, _, child) => (s, .done, child)
    return some (countRow count)

/-! ## Plans -/

/-- At least one more than the rows that a plan can still give. -/
def supply : (plan : Plan) → plan.State → Store → Nat
  | list _ rows, _, _ => rows.length + 1
  | scan file _ _ _, cursor, s =>
    ((cursor : Option Cursor).map fun c => c.pending.length).getD 0 + s.rowBound file + 1
  | aggregate _ _ _, state, _ =>
    ((state : Option (List Row) × _).1.map List.length).getD 0 + 1
  | insert .., _, _ => 2
  | delete .., _, _ => 2

/-- The next row of an aggregate, of those that are left to give. -/
def aggregateNext {σ : Type} : Turn (Option (List Row) × σ) (Option Row) := do
  let (rows, child) ← state
  match rows with
  | none => fail (.notOpen .aggregate)
  | some [] => return none
  | some (row :: rows) =>
    setState (some rows, child)
    return some row

/-- The next row of a plan. -/
def next : (plan : Plan) → Turn plan.State (Option Row)
  | list _ rows => listNext rows
  | scan file _ txn mode => scanNext file txn mode
  | aggregate .. => aggregateNext
  | insert child txn table =>
    writeNext .insert (next child) (Store.insert txn table) (supply child)
  | delete child txn => writeNext .delete (next child) (Store.delete txn) (supply child)

/-- Tallies all rows of a part, and makes the rows to give of the groups. -/
def aggregateStart {σ : Type} (agg : Aggregation) (start : Turn σ Unit)
    (next : Turn σ (Option Row)) (bound : σ → Store → Nat) :
    Turn (Option (List Row) × σ) Unit := do
  inChild start
  let (s, _, child) ← get
  let groups ← inChild (pullAll next (fun groups row => ofExcept (agg.addRow groups row))
    (bound child s) .empty)
  let rows ← ofExcept (agg.results groups)
  modify fun (s, _, child) => (s, some rows, child)

/-- Starts an insertion or deletion. -/
def writeStart {σ : Type} (start : Turn σ Unit) : Turn (Progress × σ) Unit := do
  inChild start
  modify fun (s, _, child) => (s, .running, child)

/-- Opens a plan. -/
def start : (plan : Plan) → Turn plan.State Unit
  | list .. => setState (some 0 : Option Nat)
  | scan .. => setState (some ⟨0, []⟩ : Option Cursor)
  | aggregate child agg _ => aggregateStart agg (start child) (next child) (supply child)
  | insert child .. => writeStart (start child)
  | delete child .. => writeStart (start child)

/-- The state of a plan once it is closed. -/
def closed : (plan : Plan) → plan.State → plan.State
  | list .., _ => (none : Option Nat)
  | scan .., _ => (none : Option Cursor)
  | aggregate child .., state => (none, closed child (state : Option (List Row) × _).2)
  | insert child .., state => (.closed, closed child (state : Progress × _).2)
  | delete child .., state => (.closed, closed child (state : Progress × _).2)

/-- Closes a plan. -/
def close (plan : Plan) : Turn plan.State Unit := modify fun (s, state) => (s, plan.closed state)

/-- Closes a plan and opens it again. -/
def rewind (plan : Plan) : Turn plan.State Unit := do
  plan.close
  plan.start

/-- Takes all rows that are left. -/
def collect (plan : Plan) : Turn plan.State (List Row) := do
  let (s, state) ← get
  let rows ← pullAll plan.next (fun rows row => return row :: rows) (plan.supply state s) []
  return rows.reverse

/-- All rows of a plan, which is opened for them. -/
def all (plan : Plan) : Op (List Row) := fun s =>
  match (do plan.start; plan.collect : Turn plan.State (List Row)) (s, plan.initial) with
  | .ok rows (s, _) => .ok rows s
  | .error stop (s, _) => .error stop s

end Plan

/-- All rows of a table. -/
def Store.scanAll (txn : TxnId) (table : TableId) (mode : LockMode) : Op (List Row) := do
  let plan ← Op.ofExcept (Plan.scanOf (← get).catalog table none txn mode)
  plan.all

end PageStore
