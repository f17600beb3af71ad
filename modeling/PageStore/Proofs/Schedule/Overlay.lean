import PageStore.Proofs.Query.Listing
import PageStore.Proofs.Schedule.Ledger

/-!
# What a scan sees

A transaction is to see the rows that the files hold, with its own pending changes made and with no
others.  A store is overlaid with pending changes if its dirty pages show these (`Store.Overlaid`),
and it stays so while the ledger of a run goes on, also where commits fail (`System.Run.overlaid`).

A page that a transaction fetches holds nobody else's writes, so it shows what the transaction is to
see, whether it was cached clean or dirty, or is read from its file (`gives_of_overlaid`).  A scan is
one fetch for each page of the file; and no record that the transaction is to see lies beyond them.
-/

namespace PageStore

theorem Ledger.pending_record (ledger : Ledger) (report : Report) :
    (record ⟨[], ledger.pending⟩ report).pending = (ledger.record report).pending := by
  cases report with
  | answered txn answer =>
    simp only [record]
    cases answer.change? <;> rfl
  | _ => rfl

namespace Store

variable {s after : Store} {txn : TxnId} {mode : LockMode} {file : HeapFile} {table : TableId}
  {pending : TxnId → List Change} {stored : Contents} {row : Row} {record : RecordId}

/-- A store in which the pages that hold a transaction's writes show its pending changes on what the
files hold. -/
def Overlaid (pending : TxnId → List Change) (s : Store) : Prop :=
  Ledgered s.recordAt ⟨[], pending⟩ s

theorem Ledgered.overlaid {first : Contents} {ledger : Ledger} (ledgered : Ledgered first ledger s) :
    Overlaid ledger.pending s :=
  ledgered.rebase rfl rfl

/-- A store from which a transaction is to see what the files hold, with its pending changes made. -/
structure Sees (pending : TxnId → List Change) (stored : Contents) (file : HeapFile) (s : Store) :
    Prop where
  coherent : s.Coherent
  guarded : s.Guarded
  overlaid : s.Overlaid pending
  stored : s.recordAt = stored
  listed : s.catalog.file file.table = .ok file

/-- Each page that a transaction fetches shows what the transaction is to see. -/
theorem gives_of_overlaid (pending : TxnId → List Change) (stored : Contents) (file : HeapFile)
    (txn : TxnId) (mode : LockMode) :
    Gives (Sees pending stored file) txn mode file (stored.apply (pending txn)) := by
  intro s number frame after sees fetched
  obtain ⟨fetches, cached, -⟩ := (fetch_leads s txn ⟨file.table, number⟩ mode).of_ok fetched
  have readies : Readies txn s after := .fetches fetches
  have records := readies.recordAt_eq sees.coherent.catalog
  have coherent := sees.coherent.readies readies
  have overlaid : Overlaid pending after :=
    (sees.overlaid.readies sees.coherent readies).overlaid
  have listed : after.catalog.file file.table = .ok file := by
    rw [readies.catalog_eq, sees.listed]
  have id := (coherent.faithful _ frame cached).id
  have own : ∀ writer, frame.page.dirtier = some writer → writer = txn := by
    intro writer writes
    rcases fetch_of_guarded sees.guarded fetched with clean | dirty
    · rw [clean] at writes
      cases writes
    · rw [dirty] at writes
      exact (Option.some.inj writes).symm
  refine ⟨⟨coherent, sees.guarded.readies readies, overlaid, records.trans sees.stored, listed⟩, id,
    fun slot => ?_⟩
  rw [id, overlaid.shows coherent cached listed own slot, records, sees.stored]

/-- What a transaction is to see lies on the pages of the files. -/
theorem Overlaid.lt_pageCount (overlaid : Overlaid pending s) (coherent : s.Coherent)
    (listed : s.catalog.file record.page.table = .ok file)
    (held : s.recordAt.apply (pending txn) record = .ok (some row)) :
    record.page.number < file.pageCount s.disk := by
  by_cases present : ∃ page, s.Stores record.page page
  · obtain ⟨page, stores⟩ := present
    exact stores.lt_pageCount coherent.catalog listed
  · by_cases changed : ∃ change ∈ pending txn, change.record = record
    · obtain ⟨change, mem, rfl⟩ := changed
      obtain ⟨frame, cached, -⟩ := overlaid.owned txn change mem
      exact (coherent.faithful _ frame cached).before.lt_pageCount coherent.catalog listed
    · have untouched := Contents.apply_of_not_mem s.recordAt fun change mem same =>
        changed ⟨change, mem, same⟩
      have missing := recordAt_of_missing (fun page stores => present ⟨page, stores⟩) record.slot
      rw [untouched, show record = ⟨record.page, record.slot⟩ from rfl, missing] at held
      cases held

/-- A scan that succeeds lists what its transaction is to see of the table. -/
theorem Overlaid.scan_lists {rows : List Row} (overlaid : Overlaid pending s) (coherent : s.Coherent)
    (guarded : s.Guarded) (scanned : scanAll txn table mode s = .ok rows after) :
    (s.recordAt.apply (pending txn)).Lists (fun record => record.page.table = table) rows := by
  obtain ⟨file, rfl, listed, reads⟩ := readPages_of_scanAll coherent.catalog scanned
  have sees : Sees pending s.recordAt file s := ⟨coherent, guarded, overlaid, rfl, listed⟩
  obtain ⟨-, lists⟩ := readPages_lists (gives_of_overlaid pending _ file txn mode) sees reads
  refine lists.congr fun record row held => ⟨And.left, fun here => ⟨here, Nat.zero_le _, ?_⟩⟩
  rw [Nat.zero_add]
  exact overlaid.lt_pageCount coherent (here ▸ listed) held

/-- A scan decodes every row that it meets. -/
theorem Overlaid.decodes_scanAll (overlaid : Overlaid pending s) (coherent : s.Coherent)
    (guarded : s.Guarded) (legible : s.recordAt.Legible) (txn : TxnId) (table : TableId)
    (mode : LockMode) : (scanAll txn table mode).Decodes s := by
  intro fault after
  rw [scanAll_eq]
  refine (decodes_fileOf s table).bind (fun file opened opens => ?_) fault after
  obtain ⟨listed, rfl⟩ := Op.ofExcept_eq_ok.1 opens
  obtain rfl : file.table = table := (coherent.catalog _ _ listed).1
  have sees : Sees pending opened.recordAt file opened := ⟨coherent, guarded, overlaid, rfl, listed⟩
  have counts : (pageCount file).Decodes opened := fun _ _ => nofun
  refine counts.bind fun pages _ counted => ?_
  cases counted
  exact decodes_readPages (gives_of_overlaid pending _ file txn mode) (legible.apply _) sees

end Store

open Store

namespace System

variable {s after : Store} {sys start : System} {action : Action} {report : Report}
  {reports : List Report} {ledger : Ledger} {txn : TxnId} {table : TableId} {mode : LockMode}

/-- A move keeps a store overlaid, also where a commit fails. -/
theorem Moves.overlaid (moves : Moves s action report after) (coherent : s.Coherent)
    (guarded : s.Guarded) (spares : action.Spares s) (noFlush : action.isFlush = false)
    (overlaid : s.Overlaid ledger.pending) : after.Overlaid (ledger.record report).pending := by
  cases fails : report.isFailedCommit with
  | false =>
    have ledgered := moves.ledgered coherent guarded spares noFlush fails overlaid
    exact ledger.pending_record report ▸ ledgered.overlaid
  | true =>
    cases moves with
    | fails persists among => exact (Ledgered.aborts overlaid persists among).overlaid
    | readies _ quiet => cases report <;> simp_all [Report.isQuiet, Report.isFailedCommit]
    | _ => cases fails

/-- The ledger of a run gives what each transaction is to see. -/
theorem Run.overlaid
    (run : Run (fun sys action => action.Spares sys.store ∧ action.isFlush = false) start reports sys)
    (fresh : start.Fresh) : sys.store.Overlaid (Ledger.ofReports reports).pending := by
  induction run with
  | nil => exact fresh.ledgered.overlaid
  | @act reports sys run action permitted ih =>
    have steady := run.steady fresh
    have guarded := (run.mono fun _ _ permitted => permitted.1.keepsWrites).guarded fresh
    rw [Ledger.ofReports_snoc]
    exact (act_moves steady action).overlaid steady.coherent guarded permitted.1 permitted.2 ih

/-- Whatever transactions do side by side, a scan by one of them lists exactly the rows of the table
that the files hold with its own pending changes made, each once and by its record, in the order of
pages and slots; and none that it cannot decode.  As long as the commits succeed, what the files hold
is what the changes of the committed transactions made of what they held before. -/
theorem scan_sees_committed_and_own (fresh : start.Fresh) (legible : start.store.recordAt.Legible)
    (run : Run (fun sys action => action.Spares sys.store ∧ action.isFlush = false) start reports
      sys) (txn : TxnId) (table : TableId) (mode : LockMode) :
    (∀ rows after, scanAll txn table mode sys.store = .ok rows after →
      (sys.store.recordAt.apply ((Ledger.ofReports reports).pending txn)).Lists
        (fun record => record.page.table = table) rows) ∧
    (∀ fault after, scanAll txn table mode sys.store ≠ .error (.failed (.notDecoded fault)) after) ∧
    ((∀ report ∈ reports, report.isFailedCommit = false) →
      sys.store.recordAt = start.store.recordAt.apply (Ledger.ofReports reports).committed) := by
  have overlaid := run.overlaid fresh
  have coherent := (run.steady fresh).coherent
  have guarded := (run.mono fun _ _ permitted => permitted.1.keepsWrites).guarded fresh
  exact ⟨fun _ _ => overlaid.scan_lists coherent guarded,
    overlaid.decodes_scanAll coherent guarded (run.legible fresh legible).stored txn table mode,
    fun succeed => (run.ledgered fresh succeed).settled⟩

/-- The statement above for a transaction that has deleted a committed row and stored one of its own,
on a page that was appended for an aborted row. -/
theorem scan_sees_committed_and_own_after_abort :
    let table := smallFile.table
    let old : Row := ⟨[.int 7], some ⟨⟨table, 0⟩, 0⟩⟩
    let new : Row := ⟨[.int 9], some ⟨⟨table, 1⟩, 0⟩⟩
    let actions : List Action := [.begin, .demand 0 (.insert table ⟨[.int 7], none⟩), .advance 0,
      .commit 0, .begin, .demand 1 (.insert table ⟨[.int 8], none⟩), .advance 1, .advance 1,
      .abort 1, .begin, .demand 2 (.insert table ⟨[.int 9], none⟩), .advance 2, .advance 2,
      .demand 2 (.delete old), .advance 2]
    let sys := small.acts actions
    let reports := small.hears actions
    ((Ledger.ofReports reports).committed = [⟨⟨⟨table, 0⟩, 0⟩, some old⟩] ∧
      (Ledger.ofReports reports).pending 2 = [⟨⟨⟨table, 1⟩, 0⟩, some new⟩, ⟨⟨⟨table, 0⟩, 0⟩, none⟩]) ∧
    sys.store.recordAt = small.store.recordAt.apply (Ledger.ofReports reports).committed ∧
    ∃ after, scanAll 2 table .shared sys.store = .ok [new] after ∧
      (sys.store.recordAt.apply ((Ledger.ofReports reports).pending 2)).Lists
        (fun record => record.page.table = table) [new] := by
  intro table old new actions sys reports
  have legible := legible_of_empty (s := small.store) small_fresh.catalog fun _ => rfl
  have run : Run (fun sys action => action.Spares sys.store ∧ action.isFlush = false) small
      reports sys := by
    refine run_acts small fun action mem sys => ?_
    simp only [actions, List.mem_cons, List.not_mem_nil, or_false] at mem
    rcases mem with rfl | rfl | rfl | rfl | rfl | rfl | rfl | rfl | rfl | rfl | rfl | rfl | rfl |
      rfl | rfl <;> exact ⟨trivial, rfl⟩
  obtain ⟨lists, -, committed⟩ :=
    scan_sees_committed_and_own small_fresh legible run 2 table .shared
  obtain ⟨after, scanned⟩ : ∃ after, scanAll 2 table .shared sys.store = .ok [new] after :=
    Op.exists_of_answer_ok (by decide +kernel)
  exact ⟨by decide +kernel, committed (by decide +kernel), after, scanned,
    lists [new] after scanned⟩

end System

end PageStore
