/-!
# Identities

Tables, transactions, pages and records are told apart by numbers.  A page is a numbered stretch of
one table's file, and a record is a numbered slot of one page.

The numbers have no bound here.  The program keeps those of tables, pages and slots in 32 bits, and
those of transactions and the offsets of pages in 64.  Both agree for files of fewer than 2 ^ 32 pages
and 2 ^ 64 bytes, whose pages have fewer than 2 ^ 32 slots; past that the program loses the high bits of
a number, and other pages or slots are meant.
-/

namespace PageStore

/-- The number of a table. -/
abbrev TableId := Nat

/-- The number of a transaction. -/
abbrev TxnId := Nat

/-- A page of a table's file. -/
structure PageId where
  table : TableId
  number : Nat
deriving DecidableEq, Repr, Inhabited

/-- A slot of a page. -/
structure RecordId where
  page : PageId
  slot : Nat
deriving DecidableEq, Repr, Inhabited

/-- Where a page begins in its table's file. -/
def PageId.offset (page : PageId) (pageSize : Nat) : Nat := page.number * pageSize

/-- Pages in the order of their tables, and within a table in the order of their numbers. -/
def PageId.le (p q : PageId) : Bool :=
  p.table < q.table || (p.table == q.table && p.number ≤ q.number)

end PageStore
