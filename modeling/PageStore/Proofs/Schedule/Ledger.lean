import PageStore.Proofs.Schedule.Contents
import PageStore.Proofs.Schedule.Isolation

/-!
# Transactions take effect whole, or not at all

A ledger is kept of what is heard of a run: the changes that each transaction has made and not yet
committed, and the committed changes in the order of the commits.

While the store of a run goes on, three facts about its ledger are kept (`Ledgered`).  By the table
files, each record holds what the committed changes made of it.  A page that holds a transaction's
writes shows in each slot what the pending changes of that transaction make of the record in the
file.  And every pending change is on such a page.  A commit writes these pages, so that the pending
changes become those of the files; an abort drops them.  The pages of two transactions are never the
same, since each is locked exclusively by its transaction (`Store.Guarded`).

So at the end of a run in which the commits succeed, the files hold what the committed changes made
of what they held before (`contents_eq_committed_changes`).
-/

namespace PageStore

/-- The changes that a run was heard to make. -/
structure Ledger where
  committed : List Change
  pending : TxnId → List Change

namespace Ledger

/-- The ledger of a run that did nothing yet. -/
def empty : Ledger := ⟨[], fun _ => []⟩

/-- The ledger with other pending changes of one transaction. -/
def withPending (ledger : Ledger) (txn : TxnId) (changes : List Change) : Ledger :=
  { ledger with pending := fun other => if other = txn then changes else ledger.pending other }

/-- The ledger with one more pending change of a transaction. -/
def add (ledger : Ledger) (txn : TxnId) (change : Change) : Ledger :=
  ledger.withPending txn (ledger.pending txn ++ [change])

/-- The ledger once a transaction is committed. -/
def commit (ledger : Ledger) (txn : TxnId) : Ledger :=
  { ledger.withPending txn [] with committed := ledger.committed ++ ledger.pending txn }

/-- The ledger once a transaction is aborted. -/
def abort (ledger : Ledger) (txn : TxnId) : Ledger := ledger.withPending txn []

/-- The ledger after one more report. -/
def record (ledger : Ledger) : Report → Ledger
  | .answered txn answer =>
    match answer.change? with
    | some change => ledger.add txn change
    | none => ledger
  | .committed txn => ledger.commit txn
  | .aborted txn | .notCommitted txn _ => ledger.abort txn
  | .quiet | .begun _ | .halted _ | .stopped .. => ledger

/-- The ledger of what was heard of a run. -/
def ofReports (reports : List Report) : Ledger := reports.foldl record empty

@[simp] theorem pending_withPending (ledger : Ledger) (txn other : TxnId) (changes : List Change) :
    (ledger.withPending txn changes).pending other =
      if other = txn then changes else ledger.pending other := rfl

theorem ofReports_snoc (reports : List Report) (report : Report) :
    ofReports (reports ++ [report]) = (ofReports reports).record report := by
  rw [ofReports, List.foldl_append]
  rfl

theorem record_of_quiet (ledger : Ledger) {report : Report} (quiet : report.isQuiet = true) :
    ledger.record report = ledger := by
  cases report with
  | answered txn answer =>
    have none : answer.change? = none := by simpa [Report.isQuiet] using quiet
    simp only [record, none]
  | committed txn => cases quiet
  | notCommitted txn stop => cases quiet
  | aborted txn => cases quiet
  | quiet => rfl
  | begun txn => rfl
  | halted txn => rfl
  | stopped txn stop => rfl

end Ledger

namespace Store

variable {s after flushed : Store} {txn : TxnId} {first : Contents} {ledger : Ledger}
  {change : Change}

/-- A store that shows the changes of a ledger, on what the files held first. -/
structure Ledgered (first : Contents) (ledger : Ledger) (s : Store) : Prop where
  settled : s.recordAt = first.apply ledger.committed
  shown : ∀ page frame txn, s.cache.get? page = some frame → frame.page.dirtier = some txn →
    ∀ file slot, s.catalog.file page.table = .ok file →
      frame.page.row? file.schema slot = s.recordAt.apply (ledger.pending txn) ⟨page, slot⟩
  owned : ∀ txn, ∀ change ∈ ledger.pending txn, ∃ frame,
    s.cache.get? change.record.page = some frame ∧ frame.page.dirtier = some txn

/-- The pending changes of a ledger are right on whatever it is that the files hold. -/
theorem Ledgered.rebase {base : Contents} {other : Ledger} (ledgered : Ledgered first ledger s)
    (pending : other.pending = ledger.pending) (settled : s.recordAt = base.apply other.committed) :
    Ledgered base other s where
  settled := settled
  shown := by
    rw [pending]
    exact ledgered.shown
  owned := by
    rw [pending]
    exact ledgered.owned

/-- Where no record and no dirty page changes, the ledger stays right. -/
theorem Ledgered.of_same (ledgered : Ledgered first ledger s)
    (catalog : after.catalog = s.catalog) (records : after.recordAt = s.recordAt)
    (dirty : ∀ page frame txn, frame.page.dirtier = some txn →
      (after.cache.get? page = some frame ↔ s.cache.get? page = some frame)) :
    Ledgered first ledger after where
  settled := records.trans ledgered.settled
  shown page frame txn cached writes file slot listed := by
    rw [records]
    rw [catalog] at listed
    exact ledgered.shown page frame txn ((dirty page frame txn writes).1 cached) writes file slot
      listed
  owned txn change pending := by
    obtain ⟨frame, cached, writes⟩ := ledgered.owned txn change pending
    exact ⟨frame, (dirty _ frame txn writes).2 cached, writes⟩

theorem Turnover.dirty_iff (turnover : Turnover s after) {page : PageId} {frame : Frame}
    (writes : frame.page.dirtier = some txn) :
    after.cache.get? page = some frame ↔ s.cache.get? page = some frame := by
  have dirty : frame.page.isDirty = true := by rw [Page.isDirty, writes]; rfl
  refine ⟨fun now => ?_, fun before => turnover.kept page frame before dirty⟩
  rcases turnover.read page frame now with before | stores
  · exact before
  · rw [stores.dirtier_eq] at writes
    cases writes

theorem Readies.dirty_iff {reader : TxnId} (readies : Readies reader s after) {page : PageId}
    {frame : Frame} (writes : frame.page.dirtier = some txn) :
    after.cache.get? page = some frame ↔ s.cache.get? page = some frame := by
  cases readies with
  | fetches fetches => exact fetches.toTurnover.dirty_iff writes
  | appends before appends rest =>
    rw [rest.toTurnover.dirty_iff writes, ← before.toTurnover.dirty_iff writes]
    cases appends
    rfl

theorem Ledgered.readies {reader : TxnId} (ledgered : Ledgered first ledger s)
    (coherent : Coherent s) (readies : Readies reader s after) : Ledgered first ledger after :=
  ledgered.of_same readies.catalog_eq (readies.recordAt_eq coherent.catalog)
    fun _ _ _ => readies.dirty_iff

/-! ## Rewriting -/

/-- Whoever holds a dirty page exclusively has written it. -/
theorem Guarded.writer_eq (guarded : Guarded s) {page : PageId} {frame : Frame} {writer : TxnId}
    (cached : s.cache.get? page = some frame) (writes : frame.page.dirtier = some writer)
    (exclusive : s.locks.mode? txn page = some .exclusive) : writer = txn := by
  have alone := guarded.exclusive page frame writer cached writes
  exact (guarded.locks.exclusive page).eq_of_mode? exclusive (by rw [← LockTable.mode?, alone]; rfl)

/-- A page that holds nobody else's writes shows the pending changes of a transaction, dirty or
not. -/
theorem Ledgered.shows (ledgered : Ledgered first ledger s) (coherent : Coherent s) {page : PageId}
    {frame : Frame} {file : HeapFile} (cached : s.cache.get? page = some frame)
    (listed : s.catalog.file page.table = .ok file)
    (own : ∀ writer, frame.page.dirtier = some writer → writer = txn) (slot : Nat) :
    frame.page.row? file.schema slot =
      s.recordAt.apply (ledger.pending txn) ⟨page, slot⟩ := by
  cases dirty : frame.page.dirtier with
  | some writer =>
    obtain rfl := own writer dirty
    exact ledgered.shown page frame writer cached dirty file slot listed
  | none =>
    rw [coherent.row?_of_clean cached dirty listed, Contents.apply_of_not_mem]
    intro change pending same
    obtain ⟨other, cached', writes⟩ := ledgered.owned txn change pending
    rw [same, cached] at cached'
    cases cached'
    rw [dirty] at writes
    cases writes

theorem Ledgered.rewrites (ledgered : Ledgered first ledger s) (coherent : Coherent s)
    (guarded : Guarded s) (rewrites : Rewrites txn change.record change.row s after) :
    Ledgered first (ledger.add txn change) after := by
  rcases change with ⟨⟨page, slot⟩, row⟩
  rcases rewrites with @⟨file, old, changed, listed, cached, id, exclusive, changes⟩
  have shows := ledgered.shows coherent cached listed fun writer writes =>
    guarded.writer_eq cached writes exclusive
  refine ⟨ledgered.settled, fun place frame writer now writes found at' listed' => ?_,
    fun writer other pending => ?_⟩
  · rw [get?_withFrame changes id] at now
    show _ = s.recordAt.apply _ _
    split at now
    · next here =>
      subst here
      cases now
      cases writes
      have same : found = file := Except.ok.inj (listed'.symm.trans listed)
      subst same
      have shown : (changed.dirtiedBy txn).row? found.schema at' = changed.row? found.schema at' :=
        Page.row?_of_bytes rfl rfl found.schema at'
      rw [Ledger.add, Ledger.pending_withPending, if_pos rfl, Contents.apply_snoc, shown]
      by_cases own : at' = slot
      · rw [own, if_pos rfl, changes.changed]
      · rw [if_neg (by simpa using own), changes.others at' own, shows]
    · next apart =>
      rw [ledgered.shown place frame writer now writes found at' listed', Ledger.add,
        Ledger.pending_withPending]
      split
      · next own =>
        rw [Contents.apply_snoc, if_neg (by simp [apart]), own]
      · rfl
  · rw [get?_withFrame changes id]
    rw [Ledger.add, Ledger.pending_withPending] at pending
    rcases eq_or_ne writer txn with rfl | own
    · rw [if_pos rfl, List.mem_append, List.mem_singleton] at pending
      rcases pending with before | rfl
      · split
        · exact ⟨_, rfl, rfl⟩
        · exact ledgered.owned writer other before
      · rw [if_pos rfl]
        exact ⟨_, rfl, rfl⟩
    · rw [if_neg own] at pending
      obtain ⟨frame, before, writes⟩ := ledgered.owned writer other pending
      have apart : other.record.page ≠ page := by
        intro here
        rw [here, cached] at before
        cases before
        exact own (guarded.writer_eq cached writes exclusive)
      rw [if_neg apart]
      exact ⟨frame, before, writes⟩

/-! ## The end of a transaction -/

/-- Once a transaction has ended, the ledger of the others stays right where nothing that they wrote
changes. -/
theorem Ledgered.of_ended {base : Contents} {ended : Ledger} (ledgered : Ledgered first ledger s)
    (pending : ended.pending = (ledger.withPending txn []).pending)
    (settled : after.recordAt = base.apply ended.committed) (catalog : after.catalog = s.catalog)
    (records : ∀ page slot, page ∉ s.pagesDirtiedBy txn →
      after.recordAt ⟨page, slot⟩ = s.recordAt ⟨page, slot⟩)
    (others : ∀ page frame writer, frame.page.dirtier = some writer →
      (after.cache.get? page = some frame ↔ writer ≠ txn ∧ s.cache.get? page = some frame)) :
    Ledgered base ended after where
  settled := settled
  shown page frame writer now writes file slot listed := by
    obtain ⟨apart, before⟩ := (others page frame writer writes).1 now
    rw [ledgered.shown page frame writer before writes file slot (catalog ▸ listed), pending,
      Ledger.pending_withPending, if_neg apart]
    exact Contents.apply_congr
      (records page slot (not_mem_pagesDirtiedBy before writes apart.symm)).symm _
  owned writer change mem := by
    rw [pending, Ledger.pending_withPending] at mem
    split at mem
    · cases mem
    · next apart =>
      obtain ⟨frame, before, writes⟩ := ledgered.owned writer change mem
      exact ⟨frame, (others _ frame writer writes).2 ⟨apart, before⟩, writes⟩

/-- Flushing pages of a transaction leaves what others wrote. -/
theorem Persists.others_iff {pages : List PageId} (persists : Persists pages s flushed)
    (among : pages ⊆ s.pagesDirtiedBy txn) {page : PageId} {frame : Frame} {writer : TxnId}
    (writes : frame.page.dirtier = some writer) (apart : writer ≠ txn) :
    flushed.cache.get? page = some frame ↔ s.cache.get? page = some frame := by
  refine ⟨fun now => (persists.dirty now writes).2, fun before => ?_⟩
  have other := not_mem_pagesDirtiedBy before writes apart.symm
  rw [persists.cached, before, Option.map_some, if_neg fun mem => other (among mem)]

/-- The pages that were not flushed are stored as they were. -/
theorem Persists.recordAt_other {pages : List PageId} (persists : Persists pages s flushed)
    {page : PageId} (apart : page ∉ pages ∨ s.cache.get? page = none) (slot : Nat) :
    flushed.recordAt ⟨page, slot⟩ = s.recordAt ⟨page, slot⟩ :=
  recordAt_congr persists.catalog (fun stored => persists.others page stored apart) slot

/-- The pages that were flushed are stored with what they showed. -/
theorem Persists.recordAt_self {pages : List PageId} (persists : Persists pages s flushed)
    (coherent : Coherent s) {page : PageId} {frame : Frame} {file : HeapFile} (mem : page ∈ pages)
    (cached : s.cache.get? page = some frame) (listed : s.catalog.file page.table = .ok file)
    (slot : Nat) : flushed.recordAt ⟨page, slot⟩ = frame.page.row? file.schema slot := by
  have id := (coherent.faithful page frame cached).id
  rw [recordAt_of_stores (persists.written page frame mem cached)
    (by rw [persists.catalog, listed])]
  exact Page.row?_of_bytes id.symm (by rfl) file.schema slot

theorem Ledgered.commits (ledgered : Ledgered first ledger s) (coherent : Coherent s)
    (persists : Persists (s.pagesDirtiedBy txn) s flushed) :
    Ledgered first (ledger.commit txn) (flushed.releaseAll txn) := by
  have settled : flushed.recordAt = s.recordAt.apply (ledger.pending txn) := by
    funext ⟨page, slot⟩
    by_cases mine : page ∈ s.pagesDirtiedBy txn
    · obtain ⟨frame, cached, writes⟩ := (s.mem_pagesDirtiedBy txn page).1 mine
      obtain ⟨file, listed, -⟩ := (coherent.faithful page frame cached).before
      rw [persists.recordAt_self coherent mine cached listed,
        ledgered.shown page frame txn cached writes file slot listed]
    · rw [persists.recordAt_other (.inl mine), Contents.apply_of_not_mem]
      intro change pending same
      obtain ⟨frame, cached, writes⟩ := ledgered.owned txn change pending
      rw [same] at cached
      exact mine ((s.mem_pagesDirtiedBy txn page).2 ⟨frame, cached, writes⟩)
  refine ledgered.of_ended rfl ?_ persists.catalog (fun page slot other =>
    persists.recordAt_other (.inl other) slot) fun page frame writer writes => ?_
  · show flushed.recordAt = _
    rw [settled, ledgered.settled, ← Contents.apply_append]
    rfl
  · constructor
    · intro now
      obtain ⟨others, before⟩ := persists.dirty now writes
      refine ⟨?_, before⟩
      rintro rfl
      exact others ((s.mem_pagesDirtiedBy writer page).2 ⟨frame, before, writes⟩)
    · rintro ⟨apart, before⟩
      exact (persists.others_iff (List.Subset.refl _) writes apart).2 before

/-- An abort after some pages of the transaction were flushed, or none. -/
theorem Ledgered.aborts {pages : List PageId} (ledgered : Ledgered first ledger s)
    (persists : Persists pages s flushed) (among : pages ⊆ s.pagesDirtiedBy txn) :
    Ledgered flushed.recordAt ⟨[], (ledger.abort txn).pending⟩ (flushed.abort txn) := by
  have same := flushed.abort_eq txn
  have records : (flushed.abort txn).recordAt = flushed.recordAt :=
    recordAt_of_disk (by rw [same]) (by rw [same])
  refine ledgered.of_ended rfl records (by rw [same, persists.catalog]) (fun page slot other => ?_)
    fun page frame writer writes => ?_
  · rw [records, persists.recordAt_other (.inl fun mem => other (among mem))]
  · rw [get?_abort_eq_some, writes, and_comm, ne_eq, Option.some.injEq]
    exact and_congr_right fun apart => persists.others_iff among writes apart

end Store

open Store

/-- Whether an action is a step of a transaction, or a turn of what is left open. -/
def Action.isTransactional : Action → Bool
  | begin | demand .. | advance _ | commit _ | abort _ | turn .. => true
  | flushPages _ | flushAll | discard _ | release .. => false

namespace System

variable {s after : Store} {sys start : System} {action : Action} {report : Report}
  {reports : List Report} {first : Contents} {ledger : Ledger}

/-- A move keeps the ledger, unless a commit fails. -/
theorem Moves.ledgered (moves : Moves s action report after) (coherent : Coherent s)
    (guarded : Guarded s) (spares : action.Spares s) (noFlush : action.isFlush = false)
    (succeeds : report.isFailedCommit = false)
    (ledgered : Ledgered first ledger s) : Ledgered first (ledger.record report) after := by
  cases moves with
  | readies readies quiet =>
    rw [ledger.record_of_quiet quiet]
    exact ledgered.readies coherent readies
  | alters made alters =>
    rcases alters with ⟨readied, readies, rewrites⟩
    simp only [Ledger.record, made]
    exact (ledgered.readies coherent readies).rewrites (coherent.readies readies)
      (guarded.readies readies) rewrites
  | commits persists => exact ledgered.commits coherent persists
  | fails persists => cases succeeds
  | @aborts txn =>
    refine (ledgered.aborts (.refl s) (List.nil_subset (s.pagesDirtiedBy txn))).rebase rfl ?_
    rw [s.abort_eq txn]
    exact ledgered.settled
  | flushes flush persists =>
    rw [noFlush] at flush
    cases flush
  | @discards page =>
    have same := s.dropPage_eq page
    exact ledgered.of_same (by rw [same]) (recordAt_of_disk (by rw [same]) (by rw [same]))
      fun _ _ _ writes => get?_dropPage_iff_of_dirty spares writes
  | releases => exact ledgered.of_same rfl rfl fun _ _ _ _ => Iff.rfl

theorem Fresh.ledgered (fresh : start.Fresh) :
    Ledgered start.store.recordAt .empty start.store := by
  refine ⟨rfl, fun page frame txn cached => ?_, nofun⟩
  rw [fresh.cache] at cached
  cases cached

theorem spares_of_transactional (transactional : action.isTransactional = true) :
    action.Spares s ∧ action.isFlush = false := by
  cases action with
  | flushPages txn => cases transactional
  | flushAll => cases transactional
  | discard page => cases transactional
  | release txn page => cases transactional
  | _ => exact ⟨trivial, rfl⟩

theorem Run.ledgered
    (run : Run (fun sys action => action.Spares sys.store ∧ action.isFlush = false) start reports sys)
    (fresh : start.Fresh) (succeed : ∀ report ∈ reports, report.isFailedCommit = false) :
    Ledgered start.store.recordAt (.ofReports reports) sys.store := by
  induction run with
  | nil => exact fresh.ledgered
  | @act reports sys run action permitted ih =>
    have before := ih fun report mem => succeed report (List.mem_append_left _ mem)
    have now := succeed _ (List.mem_append_right _ (List.mem_singleton_self _))
    have steady := run.steady fresh
    have guarded := (run.mono fun _ _ permitted => permitted.1.keepsWrites).guarded fresh
    rw [Ledger.ofReports_snoc]
    exact (act_moves steady action).ledgered steady.coherent guarded permitted.1 permitted.2 now
      before

/-- Whatever the transactions of a run do and in whichever order, as long as the commits succeed:
each record holds by the table files what the changes of the committed transactions, in the order of
the commits, made of what it held before. -/
theorem contents_eq_committed_changes (fresh : start.Fresh)
    (run : Run (fun _ action => action.isTransactional = true) start reports sys)
    (succeed : ∀ report ∈ reports, report.isFailedCommit = false) :
    sys.store.recordAt = start.store.recordAt.apply (Ledger.ofReports reports).committed :=
  ((run.mono fun _ _ => spares_of_transactional).ledgered fresh succeed).settled

/-- The statement above for a transaction that commits a row while another appends a page for a row
of its own, and then aborts. -/
theorem contents_eq_committed_changes_beside_abort :
    let record : RecordId := ⟨⟨smallFile.table, 0⟩, 0⟩
    let actions : List Action := [.begin, .begin, .demand 0 (.insert smallFile.table ⟨[.int 7], none⟩),
      .advance 0, .demand 1 (.insert smallFile.table ⟨[.int 8], none⟩), .advance 1, .commit 0,
      .advance 1, .advance 1, .abort 1]
    (Ledger.ofReports (small.hears actions)).committed =
      [⟨record, some ⟨[.int 7], some record⟩⟩] ∧
    (small.acts actions).store.disk.read "t" =
      [1, 0, 0, 0, 7, 0, 0, 0, 0, 0, 0, 0, 0, 0, 0, 0] ∧
    (small.acts actions).store.recordAt =
      small.store.recordAt.apply (Ledger.ofReports (small.hears actions)).committed := by
  refine ⟨by decide +kernel, by decide +kernel, contents_eq_committed_changes small_fresh ?_ ?_⟩
  · refine run_acts small fun action mem sys => ?_
    simp only [List.mem_cons, List.not_mem_nil, or_false] at mem
    rcases mem with rfl | rfl | rfl | rfl | rfl | rfl | rfl | rfl | rfl | rfl <;> rfl
  · decide +kernel

end System

end PageStore
