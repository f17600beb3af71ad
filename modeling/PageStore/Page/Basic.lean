import PageStore.Bytes.Basic
import PageStore.Ident

/-!
# Pages

A page in memory: its bytes, the transaction whose uncommitted writes they hold, if there is one,
and the bytes as they were last stored, which a log entry gives as the state before the write.
-/

namespace PageStore

/-- A page in memory. -/
structure Page where
  id : PageId
  bytes : Bytes
  dirtier : Option TxnId
  before : Bytes
deriving DecidableEq, Repr, Inhabited

namespace Page

/-- The page as it is stored: clean, with nothing written since. -/
def ofStored (id : PageId) (bytes : Bytes) : Page := ⟨id, bytes, none, bytes⟩

/-- A page of zeros. -/
def blank (id : PageId) (pageSize : Nat) : Page := ofStored id (Bytes.zeros pageSize)

/-- Whether the page holds uncommitted writes. -/
def isDirty (page : Page) : Bool := page.dirtier.isSome

/-- The page with a transaction as the one whose writes it holds. -/
def dirtiedBy (page : Page) (txn : TxnId) : Page := { page with dirtier := some txn }

/-- The page with its bytes as those last stored. -/
def rebased (page : Page) : Page := { page with before := page.bytes }

/-- The page once its bytes are stored: clean, with nothing written since. -/
def persisted (page : Page) : Page := { page.rebased with dirtier := none }

/-- The page with bytes written over its own from some offset on. -/
def write (page : Page) (start : Nat) (data : Bytes) : Page :=
  { page with bytes := page.bytes.splice start data }

end Page

end PageStore
