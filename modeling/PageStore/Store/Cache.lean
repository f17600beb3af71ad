import PageStore.Store.Basic

/-!
# Pages in memory

`fetch` gives a transaction a page once it holds the page's lock.  The page comes from the cache,
or from its table's file; to make room in a full cache, one page is evicted that is clean and that
nobody holds.  A lock that was taken for a page that then could not be loaded is given back.

Uncommitted writes never leave the cache for the file: they are written back when their transaction
commits (`PageStore.Store.Commit`), or dropped when it aborts.
-/

namespace PageStore.Store

/-- Waits for the lock of a page, or takes it. -/
def acquire (txn : TxnId) (page : PageId) (mode : LockMode) : Op Unit := fun s =>
  match s.locks.acquire txn page mode (s.overdue txn) with
  | (.granted, locks) => .ok () { s with locks := locks }
  | (.refused e, locks) => .error (.failed e) { s with locks := locks }
  | (.waiting, locks) => .error .waiting { s with locks := locks }

/-- Gives back the lock of a page. -/
def release (txn : TxnId) (page : PageId) (s : Store) : Store :=
  { s with locks := s.locks.release txn page }

/-- Gives back every lock of a transaction. -/
def releaseAll (txn : TxnId) (s : Store) : Store :=
  { s with locks := s.locks.releaseAll txn }

/-- Whether a cached page may leave the cache: it is clean, and nobody holds it. -/
def isEvictable (s : Store) (page : PageId) : Bool :=
  (s.cached? page).any (fun cached => !cached.isDirty) && !s.locks.isLocked page

/-- Takes one page out of the cache. -/
def evict : Op Unit := fun s =>
  match s.cachedPages.find? s.isEvictable with
  | some page => .ok () (s.dropPage page)
  | none => .error (.failed (.cacheExhausted s.capacity)) s

/-- Makes room for one more page. -/
def makeRoom : Op Unit := fun s =>
  if s.capacity ≤ s.cache.size then evict s else .ok () s

/-- Puts a page into the cache, as a new frame. -/
def addPage (page : Page) : Op Frame := fun s =>
  let frame : Frame := ⟨s.nextSerial, page⟩
  .ok frame { s with cache := s.cache.put page.id frame, nextSerial := s.nextSerial + 1 }

/-- Reads a page from its table's file. -/
def readStored (page : PageId) : Op Page := fun s =>
  Op.ofExcept (do (← s.catalog.file page.table).read s.disk page) s

/-- The cached frame of a page, which is read from its file if it is not cached. -/
def load (page : PageId) : Op Frame := fun s =>
  match s.cache.get? page with
  | some frame => .ok frame s
  | none => (do
      let stored ← readStored page
      makeRoom
      addPage stored) s

/-- Gives a transaction a page in some mode. -/
def fetch (txn : TxnId) (page : PageId) (mode : LockMode) : Op Frame := fun s =>
  match acquire txn page mode s with
  | .error stop s' => .error stop s'
  | .ok () s' =>
    match load page s' with
    | .ok frame s'' => .ok frame s''
    | .error stop s'' =>
      .error stop (if s.locks.holds txn page then s'' else release txn page s'')

/-- The store with a frame in the cache, in place of another of the same page. -/
def replaceFrame (s : Store) (frame : Frame) : Store :=
  match s.cache.get? frame.page.id with
  | none =>
    { s with
      cache := s.cache.put frame.page.id frame
      shelf := s.shelf.erase frame.serial }
  | some old =>
    if old.serial = frame.serial then s
    else
      { s with
        cache := s.cache.put frame.page.id frame
        shelf := (s.shelf.put old.serial old.page).erase frame.serial }

/-- Puts the frame of a reference into the cache. -/
def applyRef (ref : PageRef) : Op Unit := do
  if !(← get).cache.contains ref.page then makeRoom
  modify fun s =>
    match s.deref? ref with
    | none => s
    | some page => s.replaceFrame ⟨ref.serial, page⟩

/-- Puts the frames of references into the cache. -/
def applyRefs (refs : List PageRef) : Op Unit := refs.forM applyRef

end PageStore.Store
