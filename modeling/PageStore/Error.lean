import PageStore.Query.Function
import PageStore.Record.Codec

/-!
# Errors

Every way in which an operation can fail is a cause, with the values that the report of it names.
`Error.kind` sorts the causes into seven kinds of errors that are reported, and stops of the program
that are not; `Error.detail` words each cause, and `Error.message` is the whole report.  How a table
or a transaction is spelled is left to the reader of the report (`Spelling`).  Failures of the
machine, and of a settings file that cannot be read, have no wording of their own.
-/

namespace PageStore

/-- The kinds of errors, and of stops. -/
inductive ErrorKind where
  | deadlock
  | cacheExhausted
  | settings
  | internal
  | io
  | schemaMismatch
  | value
  /-- The program stopped itself, and reports nothing. -/
  | panic
deriving DecidableEq, Repr, Inhabited

/-- The readers and writers of rows that have to be opened first. -/
inductive Operator where
  | list
  | scan
  | aggregate
  | insert
  | delete
deriving DecidableEq, Repr, Inhabited

/-- Why an operation failed. -/
inductive Error where
  /-- The wait would close a cycle of waiting transactions. -/
  | wouldDeadlock (txn : TxnId) (page : PageId)
  /-- The transaction has lived longer than the bound on waits. -/
  | timedOut (txn : TxnId) (page : PageId)
  /-- Every cached page is dirty or locked. -/
  | cacheExhausted (capacity : Nat)
  | pageSizeNotPositive
  | bufferPagesNotPositive
  /-- A source of settings is missing, is not well formed, or holds a value of a wrong kind. -/
  | unreadableSettings
  /-- The bytes of a whole log entry end too early. -/
  | truncatedEntry
  | entryTooLong (length : Nat)
  | pageLength (page : PageId) (length expected : Nat)
  | freshPageFull (page : PageId)
  /-- The machine refused to read or write a file. -/
  | machine
  /-- The name of a file has a zero character, which ends names. -/
  | zeroInName
  | diskFull
  | rowMismatch (row : Row) (schema : Schema)
  | sourceMismatch (source : Schema) (table : TableId) (schema : Schema)
  | notDecoded (fault : DecodeFault)
  | fieldOutOfRange (i : Nat)
  | unknownField (name : String)
  | pageFull (page : PageId)
  | recordElsewhere (record : RecordId) (page : PageId)
  | slotEmpty (slot : Nat) (page : PageId)
  | doesNotFit (schema : Schema) (pageSize : Nat)
  | foreignPage (page : PageId) (table : TableId)
  | pastEnd (page : PageId) (path : String)
  | noPage (page : PageId)
  | noRecord (row : Row)
  | unknownTableId (table : TableId)
  | unknownTable (name : String)
  | tableTaken (table : TableId) (name holder : String)
  | notOpen (operator : Operator)
  | textAggregate (function : Function)
  | countMissing (function : Function) (field : Nat)
  | partNotInt (sum count : Field)
  | overflow (function : Function) (value : Int)
  /-- The bits of a page or of a row are too many for a machine word, and the program stopped. -/
  | tooManyBits
deriving DecidableEq, Repr, Inhabited

/-- How reports spell what has only a number. -/
structure Spelling where
  table : TableId → String
  txn : TxnId → String

namespace Spelling

/-- The spelling of a page: its table and its number. -/
def page (s : Spelling) (p : PageId) : String := s.table p.table ++ ":" ++ toString p.number

/-- The spelling that shows the numbers. -/
def plain : Spelling := ⟨fun table => toString table, fun txn => "txn#" ++ toString txn⟩

/-- The spelling of a record with the names of its parts. -/
def record (s : Spelling) (r : RecordId) : String :=
  "RecordId \x7b page_id: PageId \x7b table_id: " ++ s.table r.page.table ++ ", page_no: "
    ++ toString r.page.number ++ " \x7d, slot: " ++ toString r.slot ++ " \x7d"

end Spelling

/-- The report of an error of a kind, given what it says of the cause. -/
def ErrorKind.report : ErrorKind → (detail : String) → String
  | deadlock, detail => "Transaction aborted: " ++ detail
  | cacheExhausted, detail =>
    "Buffer pool exhausted: all " ++ detail ++ " cached pages are dirty or locked"
  | io, detail => "I/O error: " ++ detail
  | schemaMismatch, detail => "Schema mismatch: " ++ detail
  | settings, detail | internal, detail | value, detail | panic, detail => detail

/-- The name of an operator in reports. -/
def Operator.label : Operator → String
  | list => "Tuple list"
  | scan => "Scan"
  | aggregate => "Aggregate"
  | insert => "Insert"
  | delete => "Delete"

/-- What a report says of bytes that are not a text. -/
def Utf8.Fault.render (fault : Utf8.Fault) : String :=
  match fault.length with
  | some n => "invalid utf-8 sequence of " ++ toString n ++ " bytes from index "
      ++ toString fault.index
  | none => "incomplete utf-8 byte sequence from index " ++ toString fault.index

/-- The short name of a type in reports. -/
def FieldType.shortLabel : FieldType → String
  | int => "Int"
  | text => "Str"

/-- What a report says of bytes that are not a field. -/
def DecodeFault.render : DecodeFault → String
  | short left type => toString left ++ " bytes left, " ++ type.shortLabel ++ " field needs "
      ++ toString type.width
  | notText fault => fault.render

namespace Error

/-- The kind of a cause. -/
def kind : Error → ErrorKind
  | wouldDeadlock .. | timedOut .. => .deadlock
  | cacheExhausted .. => .cacheExhausted
  | pageSizeNotPositive | bufferPagesNotPositive | unreadableSettings => .settings
  | truncatedEntry | entryTooLong .. | pageLength .. | freshPageFull .. => .internal
  | machine | zeroInName | diskFull => .io
  | rowMismatch .. | sourceMismatch .. => .schemaMismatch
  | tooManyBits => .panic
  | _ => .value

/-- What the report says of a cause, if the cause has a wording of its own. -/
def detail (s : Spelling) : Error → Option String
  | wouldDeadlock txn page => some (s.txn txn ++ " would deadlock on page " ++ s.page page)
  | timedOut txn page => some (s.txn txn ++ " timed out waiting for page " ++ s.page page)
  | cacheExhausted capacity => some (toString capacity)
  | pageSizeNotPositive => some "page_size must be positive"
  | bufferPagesNotPositive => some "buffer_pages must be positive"
  | unreadableSettings => none
  | truncatedEntry => some "io error: unexpected end of file"
  | entryTooLong length => some ("Log record of " ++ toString length ++ " bytes too large")
  | pageLength page length expected =>
    some ("Page " ++ s.page page ++ " holds " ++ toString length ++ " bytes, expected "
      ++ toString expected)
  | freshPageFull page => some ("Freshly appended page " ++ s.page page ++ " is full")
  | machine => none
  | zeroInName => some "file name contained an unexpected NUL byte"
  | diskFull => some "disk full"
  | rowMismatch row schema =>
    some ("Tuple " ++ row.render ++ " does not match (" ++ schema.render ++ ")")
  | sourceMismatch source table schema =>
    some ("Cannot insert (" ++ source.render ++ ") into table " ++ s.table table ++ " of ("
      ++ schema.render ++ ")")
  | notDecoded fault => some fault.render
  | fieldOutOfRange i => some ("Field index " ++ toString i ++ " out of range")
  | unknownField name => some ("Unknown field " ++ name)
  | pageFull page => some ("Page " ++ s.page page ++ " is full")
  | recordElsewhere record page =>
    some ("Record " ++ s.record record ++ " is not on page " ++ s.page page)
  | slotEmpty slot page =>
    some ("Slot " ++ toString slot ++ " of page " ++ s.page page ++ " is already empty")
  | doesNotFit schema pageSize =>
    some ("Tuples of (" ++ schema.render ++ ") do not fit in " ++ toString pageSize
      ++ " byte pages")
  | foreignPage page table =>
    some ("Page " ++ s.page page ++ " does not belong to table " ++ s.table table)
  | pastEnd page path => some ("Page " ++ s.page page ++ " is past the end of " ++ path)
  | noPage page => some ("Page " ++ s.page page ++ " does not exist")
  | noRecord row => some ("Tuple " ++ row.render ++ " has no record id")
  | unknownTableId table => some ("Unknown table id " ++ s.table table)
  | unknownTable name => some ("Unknown table " ++ name)
  | tableTaken table name holder =>
    some ("Table id " ++ s.table table ++ " for " ++ name ++ " is already registered as "
      ++ holder)
  | notOpen operator => some (operator.label ++ " is not open")
  | textAggregate function => some ("Cannot compute " ++ function.label ++ " over a string field")
  | countMissing function field =>
    some (function.label ++ " needs an int count after field " ++ toString field)
  | partNotInt sum count =>
    some ("Partial sum and count must be ints, got " ++ sum.render ++ " and " ++ count.render)
  | overflow function value =>
    some (function.label ++ " of " ++ toString value ++ " overflows an int")
  | tooManyBits => none

/-- The whole report of an error, if its cause has a wording. -/
def message (s : Spelling) (e : Error) : Option String := (e.detail s).map e.kind.report

end Error

end PageStore
