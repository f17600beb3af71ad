import Mathlib.Data.List.Chain
import PageStore.Proofs.Schedule.System

/-!
# The log goes ahead of the pages

To flush a page is to go through four stages: the entry is written to the log, the log is forced,
the page is written into its file, and its frame is marked as stored (`flushPage_eq_stages`).
`System.passes` lists the stores that an action passes through, one for each stage of each page that
it flushes.

`Lawful` is what the write-ahead law allows to happen to a table's file between one store and the
next.  The file is untouched; or the bytes of a dirty page are written, the entry that tells of this
write was forced before, and the entry's earlier bytes are those that the file held; or a page of
zeros is added after the last.  Every action of every run passes through stores that obey the law
(`page_writes_follow_forced_entries`), whichever calls of the log fail.
-/

namespace PageStore

namespace Store

variable {s after : Store} {page : PageId} {file : HeapFile}

/-! ## Stages of a flush -/

/-- Does something with a page, if the page is cached and dirty. -/
def onDirty (page : PageId) (stage : Frame → TxnId → Op Unit) : Op Unit := fun s =>
  match s.cache.get? page with
  | none => .ok () s
  | some frame =>
    match frame.page.dirtier with
    | none => .ok () s
    | some txn => stage frame txn s

/-- The stages of the flush of a page. -/
def flushStages (page : PageId) : List (Op Unit) :=
  [onDirty page fun frame txn =>
      logWrite ⟨txn, frame.page.id, frame.page.before, frame.page.bytes⟩,
    onDirty page fun _ _ => logForce,
    onDirty page fun frame _ => writeStored frame.page,
    onDirty page fun frame _ =>
      modify fun s => s.setFrame { frame with page := frame.page.persisted }]

/-- Goes through stages, up to the first that fails. -/
def runStages : List (Op Unit) → Op Unit
  | [], s => .ok () s
  | stage :: stages, s =>
    match stage s with
    | .ok _ after => runStages stages after
    | .error stop after => .error stop after

/-- The stores after each stage, up to the first that fails. -/
def trail : List (Op Unit) → Store → List Store
  | [], _ => []
  | stage :: stages, s =>
    match stage s with
    | .ok _ after => after :: trail stages after
    | .error _ after => [after]

theorem onDirty_eq {frame : Frame} {txn : TxnId} (cached : s.cache.get? page = some frame)
    (dirty : frame.page.dirtier = some txn) (stage : Frame → TxnId → Op Unit) :
    onDirty page stage s = stage frame txn s := by
  simp only [onDirty, cached, dirty]

theorem onDirty_of_clean
    (clean : ∀ frame, s.cache.get? page = some frame → frame.page.dirtier = none)
    (stage : Frame → TxnId → Op Unit) : onDirty page stage s = .ok () s := by
  unfold onDirty
  cases cached : s.cache.get? page with
  | none => rfl
  | some frame => simp only [clean frame cached]

theorem writeStored_keeps (s : Store) (page : Page) :
    (writeStored page).Leads s (fun _ after => after.cache = s.cache) (fun after => after = s) := by
  unfold writeStored Op.Leads
  cases wrote : (do (← s.catalog.file page.id.table).write s.disk page : Except Error Disk) with
  | ok disk => simp only [wrote]
  | error e => simp only [wrote]

/-- To flush a page is to go through its stages. -/
theorem flushPage_eq_stages (page : PageId) : flushPage page = runStages (flushStages page) := by
  funext s
  rcases s.dirty_or_clean page with ⟨frame, txn, cached, dirty⟩ | clean
  · rw [flushPage_of_dirty cached dirty]
    unfold flushDirty
    simp only [runStages, flushStages, onDirty_eq cached dirty]
    -- No stage before the last touches the cache, so each finds the frame that the first found.
    cases wrote : logWrite ⟨txn, frame.page.id, frame.page.before, frame.page.bytes⟩ s with
    | error stop after => exact Op.bind_error wrote
    | ok _ entered =>
      obtain ⟨journals, taken⟩ := (logWrite_leads s _).of_ok wrote
      have cached : entered.cache.get? page = some frame := by rw [journals.cache_eq, cached]
      rw [Op.bind_ok wrote]
      simp only [onDirty_eq cached dirty]
      cases forces : logForce entered with
      | error stop after => exact Op.bind_error forces
      | ok _ forced =>
        obtain ⟨journals, -⟩ := (logForce_leads taken).of_ok forces
        have cached : forced.cache.get? page = some frame := by rw [journals.cache_eq, cached]
        rw [Op.bind_ok forces]
        simp only [onDirty_eq cached dirty]
        cases stores : writeStored frame.page forced with
        | error stop after => exact Op.bind_error stores
        | ok _ stored =>
          have same := (writeStored_keeps forced frame.page).of_ok stores
          have cached : stored.cache.get? page = some frame := by rw [same, cached]
          rw [Op.bind_ok stores]
          simp only [onDirty_eq cached dirty]
          rfl
  · rw [flushPage_of_clean clean]
    simp only [runStages, flushStages, onDirty_of_clean clean]

theorem runStages_append (first second : List (Op Unit)) (s : Store) :
    runStages (first ++ second) s =
      match runStages first s with
      | .ok _ after => runStages second after
      | .error stop after => .error stop after := by
  induction first generalizing s with
  | nil => rfl
  | cons stage first ih =>
    simp only [List.cons_append, runStages]
    cases stage s with
    | ok _ after => exact ih after
    | error stop after => rfl

/-- To flush pages one after another is to go through all their stages. -/
theorem flushEach_eq_stages (pages : List PageId) :
    pages.forM flushPage = runStages (pages.flatMap flushStages) := by
  funext s
  induction pages generalizing s with
  | nil => rfl
  | cons page pages ih =>
    rw [List.flatMap_cons, runStages_append, ← flushPage_eq_stages]
    cases flushed : flushPage page s with
    | ok _ after => exact (Op.bind_ok flushed).trans (ih after)
    | error stop after => exact Op.bind_error flushed

/-- The trail of stages ends where the stages do. -/
theorem getLast?_trail (stages : List (Op Unit)) (s : Store) :
    (s :: trail stages s).getLast? = some (Op.final (runStages stages s)) := by
  induction stages generalizing s with
  | nil => rfl
  | cons stage stages ih =>
    simp only [trail, runStages]
    cases stage s with
    | ok _ after =>
      rw [List.getLast?_cons_cons]
      exact ih after
    | error stop after => rfl

/-! ## The law -/

/-- What may happen to the file of a table from one store to the next. -/
inductive Lawful (file : HeapFile) (s after : Store) : Prop
  | untouched (same : after.disk.read file.path = s.disk.read file.path)
  /-- A dirty page is written, and the entry that tells of it was forced before. -/
  | stored {page : PageId} {frame : Frame} {txn : TxnId} {held : Bytes}
      (cached : s.cache.get? page = some frame) (dirty : frame.page.dirtier = some txn)
      (holds : file.read s.disk page = .ok (.ofStored page held))
      (forced : s.journal.Forced ⟨txn, page, held, frame.page.bytes⟩ s.disk)
      (writes : file.Writes page frame.page.bytes s.disk after.disk)
  /-- A page of zeros is added after the last page. -/
  | appended (writes : file.Writes ⟨file.table, file.pageCount s.disk⟩ (Bytes.zeros file.pageSize)
      s.disk after.disk)

/-- From one store to the next, the files of all tables obey the law. -/
def Obeys (s after : Store) : Prop :=
  ∀ file, s.catalog.file file.table = .ok file → Lawful file s after

theorem Obeys.of_disk (same : after.disk = s.disk) : Obeys s after :=
  fun _ _ => .untouched (by rw [same])

/-- The law is about the disk of the later store alone. -/
theorem Obeys.congr {later : Store} (obeys : Obeys s after) (same : later.disk = after.disk) :
    Obeys s later := by
  intro file listed
  cases obeys file listed with
  | untouched kept => exact .untouched (by rw [same, kept])
  | stored cached dirty holds forced writes =>
    exact .stored cached dirty holds forced (by rw [same]; exact writes)
  | appended writes => exact .appended (by rw [same]; exact writes)

theorem Obeys.of_journals (coherent : Coherent s) (journals : Journals s after) : Obeys s after :=
  fun file listed => .untouched (journals.keeps.others file.path (coherent.apart _ file listed))

theorem untouched_of_writes {other : HeapFile} {bytes : Bytes} (sound : s.catalog.Sound)
    (listed : s.catalog.file page.table = .ok file)
    (listed' : s.catalog.file other.table = .ok other) (ne : other.table ≠ page.table)
    (writes : file.Writes page bytes s.disk after.disk) : Lawful other s after := by
  have own := (sound _ _ listed).1
  rw [← own] at listed ne
  exact .untouched (writes.bytes_other (sound.path_ne listed listed' ne))

theorem Obeys.of_writes {frame : Frame} {txn : TxnId} (coherent : Coherent s)
    (cached : s.cache.get? page = some frame) (dirty : frame.page.dirtier = some txn)
    (forced : s.journal.Forced ⟨txn, page, frame.page.before, frame.page.bytes⟩ s.disk)
    (written : WritesPage page frame.page.bytes s after) : Obeys s after := by
  rcases written with @⟨file, disk, listed, writes⟩
  intro other listed'
  by_cases same : other.table = page.table
  · rw [same, listed] at listed'
    cases listed'
    have holds := (coherent.faithful page frame cached).before.read listed
    exact .stored cached dirty holds forced writes
  · exact untouched_of_writes coherent.catalog listed listed' same writes

/-- Readying pages for a change obeys the law: at most one page is appended meanwhile. -/
theorem Obeys.of_readies {txn : TxnId} (coherent : Coherent s) (readies : Readies txn s after) :
    Obeys s after := by
  cases readies with
  | fetches fetches => exact .of_disk fetches.disk
  | appends before appends rest =>
    rcases appends with @⟨file, disk, listed, writes⟩
    rw [before.catalog] at listed
    have writes : file.Writes ⟨file.table, file.pageCount s.disk⟩ (Bytes.zeros file.pageSize)
        s.disk after.disk := by
      rw [rest.disk, ← before.disk]
      exact writes
    intro other listed'
    by_cases same : other.table = file.table
    · rw [same, listed] at listed'
      cases listed'
      exact .appended writes
    · exact untouched_of_writes coherent.catalog listed listed' same writes

/-! ## Flushes obey the law -/

/-- The stages of one page obey the law, and so do the stages after them if they do on a store in
which the page is persisted. -/
theorem chain_flushStages (coherent : Coherent s) (page : PageId) {rest : List (Op Unit)}
    (goesOn : ∀ after, Persists [page] s after → (after :: trail rest after).IsChain Obeys) :
    (s :: trail (flushStages page ++ rest) s).IsChain Obeys := by
  rcases s.dirty_or_clean page with ⟨frame, txn, cached, dirty⟩ | clean
  · have faithful := coherent.faithful page frame cached
    simp only [flushStages, List.cons_append, List.nil_append, trail, onDirty_eq cached dirty,
      faithful.id]
    cases wrote : logWrite ⟨txn, page, frame.page.before, frame.page.bytes⟩ s with
    | error stop after =>
      have journals := (logWrite_leads s _).of_error wrote
      exact .cons_cons (.of_journals coherent journals) (.singleton after)
    | ok _ entered =>
      obtain ⟨journals, taken⟩ := (logWrite_leads s _).of_ok wrote
      have cached₁ : entered.cache.get? page = some frame := by rw [journals.cache_eq, cached]
      have coherent₁ := coherent.journals journals
      refine .cons_cons (.of_journals coherent journals) ?_
      simp only [onDirty_eq cached₁ dirty]
      cases forces : logForce entered with
      | error stop after =>
        have more := (logForce_leads taken).of_error forces
        exact .cons_cons (.of_journals coherent₁ more) (.singleton after)
      | ok _ forced =>
        obtain ⟨more, safe⟩ := (logForce_leads taken).of_ok forces
        have cached₂ : forced.cache.get? page = some frame := by rw [more.cache_eq, cached₁]
        have coherent₂ := coherent₁.journals more
        have writes : (writeStored frame.page).Leads forced
            (fun _ => WritesPage page frame.page.bytes forced) (fun _ => False) :=
          writeStored_leads coherent₂ cached₂
        refine .cons_cons (.of_journals coherent₁ more) ?_
        simp only [onDirty_eq cached₂ dirty]
        cases stores : writeStored frame.page forced with
        | error stop after => exact (writes.of_error stores).elim
        | ok _ stored =>
          have written := writes.of_ok stores
          have same := (writeStored_keeps forced frame.page).of_ok stores
          have cached₃ : stored.cache.get? page = some frame := by rw [same, cached₂]
          refine .cons_cons (.of_writes coherent₂ cached₂ dirty safe written) ?_
          simp only [onDirty_eq cached₃ dirty]
          have logged := (journals.trans more).persists coherent
          exact .cons_cons (.of_disk (congrArg disk (stored.setFrame_eq frame.persisted) :))
            (goesOn _ (logged.trans (written.persists coherent₂ cached₂)))
  · have persists : Persists [page] s s := persists_of_clean coherent clean
    have rests : Obeys s s := .of_disk rfl
    simp only [flushStages, List.cons_append, List.nil_append, trail, onDirty_of_clean clean]
    exact .cons_cons rests (.cons_cons rests (.cons_cons rests (.cons_cons rests
      (goesOn s persists))))

theorem chain_flushEach (coherent : Coherent s) (pages : List PageId) :
    (s :: trail (pages.flatMap flushStages) s).IsChain Obeys := by
  induction pages generalizing s with
  | nil => exact .singleton s
  | cons page pages ih =>
    rw [List.flatMap_cons]
    exact chain_flushStages coherent page fun after persists => ih (coherent.persists persists)

end Store

open Store

/-- Whether an action is a commit. -/
def Action.isCommit : Action → Bool
  | commit _ => true
  | _ => false

namespace System

variable {sys start : System} {reports : List Report} {txn : TxnId}

/-- The pages that an action flushes, up to the first that cannot be flushed. -/
def flushed (sys : System) : Action → List PageId
  | .commit txn => if sys.isFree txn then sys.store.pagesDirtiedBy txn else []
  | .flushPages txn => sys.store.pagesDirtiedBy txn
  | .flushAll => sys.store.dirtyPages
  | _ => []

/-- The stores that an action passes through, from the one before it to the one after it. -/
def passes (sys : System) (action : Action) : List Store :=
  sys.store :: trail ((sys.flushed action).flatMap flushStages) sys.store
    ++ [(sys.act action).2.store]

/-- Once its pages are flushed, a commit touches no file. -/
theorem disk_commit (s : Store) (txn : TxnId) :
    (Op.final (Store.commit txn s)).disk =
      (Op.final ((s.pagesDirtiedBy txn).forM flushPage s)).disk := by
  show _ = (Op.final (Store.flushPages txn s)).disk
  unfold Store.commit
  cases Store.flushPages txn s with
  | ok _ flushed => rfl
  | error stop flushed =>
    show (flushed.abort txn).disk = flushed.disk
    rw [abort_eq]

/-- A move that neither flushes nor commits leaves files, catalog and log as some way to a page
would. -/
theorem Moves.readied {s after : Store} {action : Action} {report : Report}
    (moves : Moves s action report after) (calm : action.isFlush = false)
    (ends : action.isCommit = false) :
    ∃ txn readied, Readies txn s readied ∧ after.disk = readied.disk ∧
      after.catalog = readied.catalog ∧ after.journal = readied.journal := by
  cases moves with
  | @readies _ _ _ txn readies _ => exact ⟨txn, after, readies, rfl, rfl, rfl⟩
  | @alters txn _ _ _ _ alters =>
    rcases alters with ⟨readied, readies, rewrites⟩
    cases rewrites
    exact ⟨txn, readied, readies, rfl, rfl, rfl⟩
  | commits persists => cases ends
  | fails persists => cases ends
  | @aborts txn =>
    refine ⟨txn, s, .refl txn s, ?_⟩
    rw [abort_eq]
    exact ⟨rfl, rfl, rfl⟩
  | flushes flush persists =>
    rw [flush] at calm
    cases calm
  | discards =>
    refine ⟨0, s, .refl 0 s, ?_⟩
    rw [dropPage_eq]
    exact ⟨rfl, rfl, rfl⟩
  | @releases txn _ => exact ⟨txn, s, .refl txn s, rfl, rfl, rfl⟩

/-- An action that flushes nothing obeys the law. -/
theorem Moves.obeys {s after : Store} {action : Action} {report : Report}
    (moves : Moves s action report after) (coherent : s.Coherent)
    (calm : action.isFlush = false) (ends : action.isCommit = false) : Obeys s after := by
  obtain ⟨txn, readied, readies, disk, -, -⟩ := moves.readied calm ends
  exact Obeys.congr (.of_readies coherent readies) disk

/-- What an action does after its flushes obeys the law. -/
theorem obeys_rest (steady : sys.Steady) (action : Action) :
    Obeys (Op.final ((sys.flushed action).forM flushPage sys.store)) (sys.act action).2.store := by
  have moves := act_moves steady action
  cases action with
  | commit txn =>
    by_cases free : sys.isFree txn
    · have same := disk_commit sys.store txn
      simp only [System.act, flushed, free, if_true]
      refine .of_disk ?_
      rw [← same]
      cases Store.commit txn sys.store <;> rfl
    · simp only [System.act, flushed, free]
      exact .of_disk rfl
  | flushPages txn => exact .of_disk rfl
  | flushAll => exact .of_disk rfl
  | begin => exact moves.obeys steady.coherent rfl rfl
  | demand txn demand => exact moves.obeys steady.coherent rfl rfl
  | advance txn => exact moves.obeys steady.coherent rfl rfl
  | abort txn => exact moves.obeys steady.coherent rfl rfl
  | discard page => exact moves.obeys steady.coherent rfl rfl
  | release txn page => exact moves.obeys steady.coherent rfl rfl
  | turn overdue arrangement => exact moves.obeys steady.coherent rfl rfl

/-- Whatever was done before, and whichever calls of the log fail, an action passes only through
stores of which each obeys the write-ahead law after the one before it. -/
theorem page_writes_follow_forced_entries (fresh : start.Fresh)
    (run : Run (fun _ _ => True) start reports sys) (action : Action) :
    (sys.passes action).IsChain fun s after =>
      ∀ file, s.catalog.file file.table = .ok file → Lawful file s after := by
  have steady := run.steady fresh
  refine List.isChain_append.2 ⟨chain_flushEach steady.coherent _, .singleton _, ?_⟩
  intro last ends final here
  rw [getLast?_trail, ← flushEach_eq_stages] at ends
  cases ends
  cases here
  exact obeys_rest steady action

/-- The statement above for the commit of one row.  The file changes once, when the log has been
written and forced. -/
theorem page_writes_follow_forced_entries_at_commit :
    let sys := small.acts [.begin, .demand 0 (.insert smallFile.table ⟨[.int 7], none⟩), .advance 0]
    ((sys.passes (.commit 0)).map fun s => (s.disk.read "t", (s.journal.forcedEntries s.disk).length))
      = [(Bytes.zeros 8, 0), (Bytes.zeros 8, 0), (Bytes.zeros 8, 1), ([1, 0, 0, 0, 7, 0, 0, 0], 1),
        ([1, 0, 0, 0, 7, 0, 0, 0], 1), ([1, 0, 0, 0, 7, 0, 0, 0], 1)] ∧
    (sys.passes (.commit 0)).IsChain fun s after =>
      ∀ file, s.catalog.file file.table = .ok file → Lawful file s after := by
  refine ⟨by decide +kernel, page_writes_follow_forced_entries small_fresh (run_acts small fun _ _ _ => ?_) _⟩
  trivial

end System

end PageStore
