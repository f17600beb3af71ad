import PageStore.Journal.Basic
import PageStore.Lock.Table
import PageStore.Table.Catalog

/-!
# The store

Everything that transactions share: the table files, the catalog, the pages in memory, the locks
and the write-ahead log.

The cache holds a bounded number of pages.  A loaded page is a frame with a serial number of its
own, so that a reference to it stays a reference to that frame: when a page leaves the cache its
frame goes to the shelf, where those who still refer to it find it, and when the page is loaded
again it becomes a new frame.

The order in which the cache yields its pages decides which page is evicted and in which order
pages are written back.  It is left open: an `Arrangement` is any way to order a list.

An operation (`Op`) reads and changes the store.  It can stop before its end, because it failed or
because it must wait for a lock; what it did until then stays done.
-/

namespace PageStore

/-- A way to order pages. -/
structure Arrangement where
  order : List PageId → List PageId
  perm : ∀ pages, (order pages).Perm pages

/-- The order in which pages came into the cache. -/
def Arrangement.byArrival : Arrangement := ⟨fun pages => pages, fun _ => .refl _⟩

instance : Inhabited Arrangement := ⟨.byArrival⟩

/-- A loaded page. -/
structure Frame where
  serial : Nat
  page : Page
deriving DecidableEq, Repr, Inhabited

/-- A reference to a loaded page. -/
structure PageRef where
  page : PageId
  serial : Nat
deriving DecidableEq, Repr, Inhabited

/-- A reference to a frame. -/
def Frame.ref (frame : Frame) : PageRef := ⟨frame.page.id, frame.serial⟩

/-- What transactions share. -/
structure Store where
  disk : Disk
  catalog : Catalog
  /-- How many pages may be cached. -/
  capacity : Nat
  arrangement : Arrangement
  cache : Dictionary PageId Frame
  /-- The frames that left the cache, by serial number. -/
  shelf : Dictionary Nat Page
  nextSerial : Nat
  locks : LockTable
  /-- Whether a transaction has outlived the bound on waits, so that it may not wait. -/
  overdue : TxnId → Bool
  journal : Journal
deriving Inhabited

/-- Why an operation stopped before its end. -/
inductive Stop where
  | failed (cause : Error)
  /-- The operation must wait for a lock.  Its request for the lock is in the lock table. -/
  | waiting
deriving DecidableEq, Repr, Inhabited

/-- An operation on the store. -/
abbrev Op := EStateM Stop Store

namespace Op

variable {α : Type}

/-- An operation that succeeds or fails without touching the store. -/
def ofExcept : Except Error α → Op α
  | .ok a, s => .ok a s
  | .error e, s => .error (.failed e) s

/-- Fails. -/
def fail (e : Error) : Op α := fun s => .error (.failed e) s

/-- The store after an operation, however it ended. -/
def final : EStateM.Result Stop Store α → Store
  | .ok _ s => s
  | .error _ s => s

end Op

namespace Store

/-- A store with nothing in memory, over a disk and a log. -/
def start (disk : Disk) (capacity : Nat) (overdue : TxnId → Bool) (journal : Journal) : Store where
  disk := disk
  catalog := .empty
  capacity := capacity
  arrangement := .byArrival
  cache := .empty
  shelf := .empty
  nextSerial := 0
  locks := .empty
  overdue := overdue
  journal := journal

/-- A page in the cache. -/
def cached? (s : Store) (page : PageId) : Option Page := (s.cache.get? page).map Frame.page

/-- The cached pages, in the order that the arrangement gives them. -/
def cachedPages (s : Store) : List PageId := s.arrangement.order s.cache.keys

/-- The page that a reference refers to. -/
def deref? (s : Store) (ref : PageRef) : Option Page :=
  match (s.cache.get? ref.page).filter fun frame => frame.serial = ref.serial with
  | some frame => some frame.page
  | none => s.shelf.get? ref.serial

/-- The store with a frame changed, in the cache or on the shelf. -/
def setFrame (s : Store) (frame : Frame) : Store :=
  match (s.cache.get? frame.page.id).filter fun old => old.serial = frame.serial with
  | some _ => { s with cache := s.cache.put frame.page.id frame }
  | none => { s with shelf := s.shelf.put frame.serial frame.page }

/-- The store with a page taken out of the cache. -/
def dropPage (s : Store) (page : PageId) : Store :=
  match s.cache.get? page with
  | none => s
  | some frame =>
    { s with cache := s.cache.erase page, shelf := s.shelf.put frame.serial frame.page }

/-- The store with every cached page dropped that passes a test. -/
def dropPages (s : Store) (test : Page → Bool) : Store :=
  (s.cache.keys.filter fun page => (s.cached? page).any test).foldl dropPage s

end Store

end PageStore
