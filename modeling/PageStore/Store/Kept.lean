import PageStore.Store.Rows

/-!
# Pages that callers keep

A caller may keep the reference that `fetch` gave it, read the page through it and write into it,
whether or not the frame is still in the cache.  Writes through a reference mark the page dirty and
check no lock; a caller that holds no exclusive lock on the page breaks the isolation of others.
-/

namespace PageStore.Store

/-- The page that a reference refers to.  A reference that came from `fetch` always has one. -/
def readRef (ref : PageRef) : Op (Option Page) := fun s => .ok (s.deref? ref) s

/-- Changes the page that a reference refers to, on behalf of a transaction. -/
def changeRef (ref : PageRef) (txn : TxnId) (change : Page → Page) : Op (Option Page) := fun s =>
  match s.deref? ref with
  | none => .ok none s
  | some page =>
    let changed := (change page).dirtiedBy txn
    .ok (some changed) (s.setFrame ⟨ref.serial, changed⟩)

/-- Writes bytes into the page that a reference refers to. -/
def writeRef (ref : PageRef) (txn : TxnId) (start : Nat) (data : Bytes) : Op (Option Page) :=
  changeRef ref txn fun page => page.write start data

/-- Stores a row in the first free slot of the page that a reference refers to. -/
def insertRef (ref : PageRef) (txn : TxnId) (row : Row) : Op (Option RecordId) := fun s =>
  match s.deref? ref with
  | none => .ok none s
  | some page =>
    match (do page.insert (← s.catalog.file page.id.table).schema row) with
    | .error e => .error (.failed e) s
    | .ok (changed, record) =>
      .ok (some record) (s.setFrame ⟨ref.serial, changed.dirtiedBy txn⟩)

end PageStore.Store
