import PageStore.Proofs.Schedule.Halted

/-!
# Scans that are repeated

A transaction that scans a table again, and has let go of nothing since and changed nothing in the
table, finds what it found before, and after it at most rows of pages that were appended in between
(`scans_repeat`).  Locks are of pages, and nobody holds the pages that a table does not have yet.
An insertion comes to append a page only after it held the first page of the table, unless the table
had no pages when it began.  So a table that has a page, while no such insertion is under way, gets
no rows from others at all (`Run.barred`).  A table without pages is protected by no lock
(`scan_of_empty_table_meets_new_row`), and an insertion that has found it without pages appends one
even when there is a page by then (`scans_repeat_beside_begun_insertion`).
-/

namespace PageStore

open Store

variable {s after : Store} {txn other : TxnId} {file : HeapFile} {number : Nat} {rows : List Row}
  {row : Row}

/-! ## Scanning again -/

/-- Whether an action spares what was written, and gives back no lock of a transaction. -/
def Action.KeepsLocks (txn : TxnId) (sys : System) (action : Action) : Prop :=
  action.Spares sys.store ∧ action.givesBack txn = false

namespace System

variable {sys start later : System} {action : Action} {report : Report} {reports more : List Report}
  {call : Call}

/-- A transaction is about to complete a scan of a table, and finds some rows. -/
def Scans (sys : System) (txn : TxnId) (file : HeapFile) (rows : List Row) : Prop :=
  (∃ mode number found, sys.calls.get? txn = some (.scan file mode number found)) ∧
    (sys.act (.advance txn)).1 = .answered txn (.scanned rows)

/-- A scan is complete once it has read every page, and leaves everything as it is. -/
theorem Scans.scanned (scans : sys.Scans txn file rows) (informed : sys.Informed) :
    sys.store.Scanned txn file (file.pageCount sys.store.disk) rows ∧
      (sys.act (.advance txn)).2 = { sys with calls := sys.calls.erase txn } := by
  obtain ⟨⟨mode, number, found, halted⟩, answered⟩ := scans
  have scanned : sys.store.Scanned txn file number found := informed.knows txn _ halted
  have listed : sys.store.catalog.file file.table = .ok file := informed.registered txn _ halted
  have inside := scanned.reads.le_pageCount informed.coherent listed
  simp only [System.act, halted, System.advance] at answered ⊢
  cases advances : Call.advance txn (.scan file mode number found) sys.store with
  | error stop after =>
    rw [advances] at answered
    cases stop <;> cases answered
  | ok ends after =>
    rw [advances] at answered
    cases Call.passes_of_advance advances with
    | read inside reads => cases answered
    | scanned beyond =>
      have all : number = file.pageCount sys.store.disk :=
        Nat.le_antisymm inside (Nat.le_of_not_lt beyond)
      cases answered
      exact ⟨all ▸ scanned, rfl⟩

/-- What a transaction has read stays as it was read, as long as it lets go of nothing and changes
nothing in the table. -/
theorem Run.scanned (run : Run (Action.KeepsLocks txn) sys more later) (informed : sys.Informed)
    (unchanged : ∀ report ∈ more, report.changes txn file.table = false)
    (scanned : sys.store.Scanned txn file number rows) :
    later.Informed ∧ later.store.catalog = sys.store.catalog ∧
      later.store.Scanned txn file number rows := by
  induction run with
  | nil => exact ⟨informed, rfl, scanned⟩
  | act run action keeps ih =>
    obtain ⟨informed, catalog, scanned⟩ := ih fun report mem =>
      unchanged report (List.mem_append_left _ mem)
    have now := unchanged _ (List.mem_append_right _ (List.mem_singleton_self _))
    have moves := act_moves informed.toSteady action
    exact ⟨informed.act keeps.1, moves.catalog_eq.trans catalog,
      moves.scanned informed.coherent informed.guarded keeps.1 keeps.2 now scanned⟩

/-- Pages without rows have none until somebody inserts one. -/
theorem Run.vacant {allowed : System → Action → Prop} (run : Run allowed sys more later)
    (steady : sys.Steady) (listed : sys.store.catalog.file file.table = .ok file)
    (inserts : ∀ report ∈ more, report.inserts file.table = false)
    (vacant : sys.store.Vacant file number) :
    later.Steady ∧ later.store.catalog = sys.store.catalog ∧ later.store.Vacant file number := by
  induction run with
  | nil => exact ⟨steady, rfl, vacant⟩
  | act run action _ ih =>
    obtain ⟨steady, catalog, vacant⟩ := ih fun report mem =>
      inserts report (List.mem_append_left _ mem)
    have now := inserts _ (List.mem_append_right _ (List.mem_singleton_self _))
    have moves := act_moves steady action
    exact ⟨steady.act action, moves.catalog_eq.trans catalog,
      moves.vacant steady.coherent (catalog ▸ listed) now vacant⟩

/-! ## Who may insert -/

/-- A transaction holds the first page of a table, and everybody else who inserts into the table has
yet to try that page. -/
structure Barred (txn : TxnId) (file : HeapFile) (sys : System) : Prop where
  reads : ∃ rows, sys.store.Scanned txn file 1 rows
  untried : ∀ other into row numbers, other ≠ txn →
    sys.calls.get? other = some (.insert into row numbers) → into.table = file.table →
      ∃ rest, numbers = 0 :: rest

/-- A page that somebody holds is not given to another for writing. -/
theorem fetch_of_held (consistent : s.locks.Consistent) {page : PageId}
    (held : (s.locks.mode? txn page).isSome) (ne : other ≠ txn) (frame : Frame) (after : Store) :
    Store.fetch other page .exclusive s ≠ .ok frame after := by
  intro fetched
  obtain ⟨fetches, -, exclusive⟩ := (fetch_leads s other page .exclusive).of_ok fetched
  have still : (after.locks.mode? txn page).isSome := by
    rw [fetches.locks.others txn page ne.symm]
    exact held
  exact ne (((fetches.locks.consistent consistent).exclusive page).eq_of_mode?
    (exclusive.elim id id) still).symm

/-- An insertion that comes to a page that somebody else holds does not go on. -/
theorem advance_of_held (consistent : s.locks.Consistent) {rest : List Nat}
    (held : (s.locks.mode? txn ⟨file.table, number⟩).isSome) (ne : other ≠ txn)
    (ends : Answer ⊕ Call) (after : Store) :
    Call.advance other (.insert file row (number :: rest)) s ≠ .ok ends after := by
  intro advances
  obtain ⟨stored, tried, stores, -⟩ := Op.bind_eq_ok.1 advances
  obtain ⟨frame, fetched, fetches, -⟩ := Op.bind_eq_ok.1 stores
  exact fetch_of_held consistent held ne frame fetched fetches

/-- Whoever else is to insert into a table whose first page a transaction holds does not come past
that page. -/
theorem Barred.stays (barred : sys.Barred txn file) (informed : sys.Informed)
    (listed : sys.store.catalog.file file.table = .ok file) (ne : other ≠ txn) {into : HeapFile}
    {numbers : List Nat} (halted : sys.calls.get? other = some (.insert into row numbers))
    (table : into.table = file.table) (ends : Answer ⊕ Call) (after : Store) :
    Call.advance other (.insert into row numbers) sys.store ≠ .ok ends after := by
  obtain ⟨rows, scanned⟩ := barred.reads
  have here : sys.store.catalog.file into.table = .ok into := informed.registered other _ halted
  rw [table, listed] at here
  cases here
  obtain ⟨rest, rfl⟩ := barred.untried other file row numbers ne halted rfl
  exact advance_of_held informed.guarded.locks (scanned.held 0 Nat.one_pos) ne ends after

/-- An insertion that begins is to try the first page of its table first, if the table has pages. -/
theorem untried_of_start {into : HeapFile} {numbers : List Nat} {demand : Demand}
    (sound : s.catalog.Sound) (listed : s.catalog.file file.table = .ok file)
    (pages : 0 < file.pageCount s.disk) (table : into.table = file.table)
    (starts : demand.start s = .ok (.insert into row numbers) after) :
    ∃ rest, numbers = 0 :: rest := by
  obtain ⟨here, rfl⟩ := (Demand.start_call sound demand).of_ok starts
  rw [table, listed] at here
  cases here
  obtain ⟨count, all⟩ := Nat.exists_eq_succ_of_ne_zero (Nat.ne_of_gt pages)
  exact ⟨_, by rw [all, List.range_succ_eq_map]⟩

/-- No row is inserted into a table whose first page a transaction holds, but by that transaction. -/
theorem Barred.no_inserts (barred : sys.Barred txn file) (informed : sys.Informed)
    (listed : sys.store.catalog.file file.table = .ok file)
    (unchanged : (sys.act action).1.changes txn file.table = false) :
    (sys.act action).1.inserts file.table = false := by
  have outcome := sys.act_outcome action
  generalize sys.act action = done at outcome unchanged ⊢
  cases outcome with
  | @answers caller call answer after halted advances =>
    have inserted := call.advance_inserts informed.coherent
      (informed.registered caller call halted) advances
    cases answer with
    | inserted record row =>
      obtain ⟨into, row', numbers, rfl, table⟩ := inserted
      refine beq_eq_false_iff_ne.2 fun here => ?_
      rcases eq_or_ne caller txn with rfl | ne
      · simp [Report.changes, Answer.change?, here] at unchanged
      · exact barred.stays informed listed ne halted (table.symm.trans here) _ _ advances
    | _ => rfl
  | _ => rfl

theorem Barred.act (barred : sys.Barred txn file) (informed : sys.Informed)
    (listed : sys.store.catalog.file file.table = .ok file) (keeps : action.KeepsLocks txn sys)
    (unchanged : (sys.act action).1.changes txn file.table = false) :
    (sys.act action).2.Barred txn file := by
  obtain ⟨rows, scanned⟩ := barred.reads
  have pages := scanned.reads.le_pageCount informed.coherent listed
  refine ⟨⟨rows, (act_moves informed.toSteady action).scanned informed.coherent informed.guarded
    keeps.1 keeps.2 unchanged scanned⟩, fun other into row numbers ne now table => ?_⟩
  have before (still : sys.calls.get? other = some (.insert into row numbers)) :=
    barred.untried other into row numbers ne still table
  have outcome := sys.act_outcome action
  generalize sys.act action = done at outcome now
  cases outcome with
  | starts starts =>
    rw [Dictionary.get?_put] at now
    split at now
    · cases now
      exact untried_of_start informed.coherent.catalog listed pages table starts
    · exact before now
  | @goesOn caller call next after halted advances =>
    rw [Dictionary.get?_put] at now
    split at now
    · next own =>
      subst own
      cases now
      obtain ⟨number, rfl⟩ := call.advance_inserts informed.coherent
        (informed.registered other call halted) advances
      exact absurd advances (barred.stays informed listed ne halted table _ _)
    · exact before now
  | answers _ _ | fails _ _ => exact before (Dictionary.get?_of_erase now)
  | _ => exact before now

/-- While a transaction holds the first page of a table, and nobody has begun to append one before,
no row is inserted into the table but by that transaction. -/
theorem Run.barred (run : Run (Action.KeepsLocks txn) sys more later) (informed : sys.Informed)
    (listed : sys.store.catalog.file file.table = .ok file)
    (unchanged : ∀ report ∈ more, report.changes txn file.table = false)
    (barred : sys.Barred txn file) :
    later.Informed ∧ later.store.catalog = sys.store.catalog ∧ later.Barred txn file ∧
      ∀ report ∈ more, report.inserts file.table = false := by
  induction run with
  | nil => exact ⟨informed, rfl, barred, nofun⟩
  | act run action keeps ih =>
    obtain ⟨informed, catalog, barred, before⟩ := ih fun report mem =>
      unchanged report (List.mem_append_left _ mem)
    have now := unchanged _ (List.mem_append_right _ (List.mem_singleton_self _))
    have listed := catalog ▸ listed
    refine ⟨informed.act keeps.1, (act_moves informed.toSteady action).catalog_eq.trans catalog,
      barred.act informed listed keeps now, fun report mem => ?_⟩
    rcases List.mem_append.1 mem with old | new
    · exact before report old
    · rw [List.mem_singleton.1 new]
      exact barred.no_inserts informed listed now

/-- A table that has a page is barred to others once a scan of it is complete, unless an insertion
has come to the end of the table without having tried a page. -/
theorem Scans.barred (scans : sys.Scans txn file rows) (informed : sys.Informed)
    (pages : 0 < file.pageCount sys.store.disk)
    (begun : ∀ other row, sys.calls.get? other ≠ some (.insert file row [])) :
    Barred txn file { sys with calls := sys.calls.erase txn } := by
  have scanned := (scans.scanned informed).1
  obtain ⟨⟨mode, number, found, halted⟩, -⟩ := scans
  have listed : sys.store.catalog.file file.table = .ok file := informed.registered txn _ halted
  refine ⟨?_, fun other into row numbers ne now table => ?_⟩
  · obtain ⟨others, count⟩ := Nat.exists_eq_add_of_le (Nat.succ_le_of_lt pages)
    obtain ⟨rows, -, reads, -, -⟩ := Reads.splits (count ▸ scanned.reads)
    exact ⟨rows, reads, fun n lt => scanned.held n (Nat.lt_of_lt_of_le lt pages)⟩
  · have now : sys.calls.get? other = some (.insert into row numbers) := Dictionary.get?_of_erase now
    have here : sys.store.catalog.file into.table = .ok into := informed.registered other _ now
    rw [table, listed] at here
    cases here
    rcases informed.knows other _ now with ⟨count, rfl⟩ | exclusive
    · cases count with
      | zero => exact absurd now (begun other row)
      | succ count => exact ⟨_, List.range_succ_eq_map⟩
    · have held := scanned.held 0 pages
      exact absurd ((informed.guarded.locks.exclusive _).eq_of_mode? exclusive held) ne.symm

/-- A transaction completes a scan of a table, and later, having changed nothing in the table and
given back no lock in between, completes another.  What it finds is what it found before, and then
rows on pages that were appended in between; nothing, unless somebody inserted a row into the
table.  If the table had a page before and no insertion was about to append one without having tried
any, the rows are the same. -/
theorem scans_repeat {rows' : List Row} (fresh : start.Fresh)
    (run : Run (fun sys action => action.Spares sys.store) start reports sys)
    (first : sys.Scans txn file rows)
    (between : Run (Action.KeepsLocks txn) (sys.act (.advance txn)).2 more later)
    (unchanged : ∀ report ∈ more, report.changes txn file.table = false)
    (second : later.Scans txn file rows') :
    ∃ extra, rows' = rows ++ extra ∧ LieFrom file (file.pageCount sys.store.disk) extra ∧
      ((∀ report ∈ more, report.inserts file.table = false) → extra = []) ∧
      (0 < file.pageCount sys.store.disk →
        (∀ other row, sys.calls.get? other ≠ some (.insert file row [])) → extra = []) := by
  have informed := run.informed fresh.informed
  obtain ⟨scanned, same⟩ := first.scanned informed
  obtain ⟨mode, number, found, halted⟩ := first.1
  have listed : sys.store.catalog.file file.table = .ok file := informed.registered txn _ halted
  have informed' : (sys.act (.advance txn)).2.Informed := informed.act trivial
  rw [same] at between informed'
  obtain ⟨goesOn, catalog, still⟩ := between.scanned informed' unchanged scanned
  have listed' : later.store.catalog.file file.table = .ok file := catalog ▸ listed
  obtain ⟨count, all⟩ := Nat.exists_eq_add_of_le (still.reads.le_pageCount goesOn.coherent listed')
  have reads : later.store.Reads file (file.pageCount sys.store.disk + count) rows' :=
    all ▸ (second.scanned goesOn).1.reads
  obtain ⟨before, extra, fewer, rfl, lie⟩ := reads.splits
  obtain rfl := fewer.unique still.reads
  have none (inserts : ∀ report ∈ more, report.inserts file.table = false) : extra = [] := by
    have vacant := vacant_of_pageCount informed.coherent listed
    obtain ⟨-, -, vacant⟩ := between.vacant informed'.toSteady listed inserts vacant
    have same := (reads.of_vacant goesOn.coherent vacant).unique still.reads
    exact List.append_right_eq_self.1 same
  exact ⟨extra, rfl, lie, none, fun pages begun => none (between.barred informed' listed unchanged
    (first.barred informed pages begun)).2.2.2⟩

/-- The statement above where an insertion begins while the table has no pages, and goes on only
after another transaction has inserted the first row and a third has scanned the table.  The second
scan finds one more row, on a page that was appended in between. -/
theorem scans_repeat_beside_begun_insertion :
    let table := smallFile.table
    let first : Row := ⟨[.int 7], some ⟨⟨table, 0⟩, 0⟩⟩
    let second : Row := ⟨[.int 8], some ⟨⟨table, 1⟩, 0⟩⟩
    let before : List Action := [.begin, .begin, .begin, .demand 1 (.insert table ⟨[.int 8], none⟩),
      .demand 2 (.insert table ⟨[.int 7], none⟩), .advance 2, .commit 2,
      .demand 0 (.scan table .shared), .advance 0]
    let between : List Action := [.advance 1, .commit 1, .demand 0 (.scan table .shared),
      .advance 0, .advance 0]
    let sys := small.acts before
    let after := (sys.act (.advance 0)).2
    (sys.Scans 0 smallFile [first] ∧ (after.acts between).Scans 0 smallFile [first, second] ∧
      (∀ report ∈ after.hears between, report.changes 0 table = false) ∧
      0 < smallFile.pageCount sys.store.disk) ∧
    ∃ extra, [first, second] = [first] ++ extra ∧
      LieFrom smallFile (smallFile.pageCount sys.store.disk) extra := by
  intro table first second before between sys after
  have scans : sys.Scans 0 smallFile [first] :=
    ⟨⟨.shared, 1, [first], by decide +kernel⟩, by decide +kernel⟩
  have again : (after.acts between).Scans 0 smallFile [first, second] :=
    ⟨⟨.shared, 2, [first, second], by decide +kernel⟩, by decide +kernel⟩
  have unchanged : ∀ report ∈ after.hears between, report.changes 0 table = false := by
    decide +kernel
  have run : Run (fun sys action => action.Spares sys.store) small (small.hears before) sys :=
    run_acts small fun action mem sys => by
      simp only [before, List.mem_cons, List.not_mem_nil, or_false] at mem
      rcases mem with rfl | rfl | rfl | rfl | rfl | rfl | rfl | rfl | rfl <;> trivial
  have keeps : Run (Action.KeepsLocks 0) after (after.hears between) (after.acts between) :=
    run_acts after fun action mem sys => by
      simp only [between, List.mem_cons, List.not_mem_nil, or_false] at mem
      rcases mem with rfl | rfl | rfl | rfl | rfl <;> exact ⟨trivial, rfl⟩
  obtain ⟨extra, found, lie, -, -⟩ := scans_repeat small_fresh run scans keeps unchanged again
  exact ⟨⟨scans, again, unchanged, by decide +kernel⟩, extra, found, lie⟩

/-- A transaction scans a table that has no pages, and finds nothing; another inserts a row and
commits; and a second scan by the first transaction, which has done nothing else, finds the row. -/
theorem scan_of_empty_table_meets_new_row :
    let table := smallFile.table
    let row : Row := ⟨[.int 7], some ⟨⟨table, 0⟩, 0⟩⟩
    let before : List Action := [.begin, .begin, .demand 0 (.scan table .shared)]
    let between : List Action := [.demand 1 (.insert table ⟨[.int 7], none⟩), .advance 1, .commit 1,
      .demand 0 (.scan table .shared), .advance 0]
    let sys := small.acts before
    let after := (sys.act (.advance 0)).2
    Run (fun sys action => action.Spares sys.store) small (small.hears before) sys ∧
      Run (Action.KeepsLocks 0) after (after.hears between) (after.acts between) ∧
      (∀ report ∈ after.hears between, report.changes 0 table = false) ∧
      sys.Scans 0 smallFile [] ∧ (after.acts between).Scans 0 smallFile [row] := by
  intro table row before between sys after
  refine ⟨run_acts small fun action mem sys => ?_, run_acts after fun action mem sys => ?_,
    by decide +kernel, ⟨⟨.shared, 0, [], by decide +kernel⟩, by decide +kernel⟩,
    ⟨⟨.shared, 1, [row], by decide +kernel⟩, by decide +kernel⟩⟩
  · simp only [before, List.mem_cons, List.not_mem_nil, or_false] at mem
    rcases mem with rfl | rfl | rfl <;> trivial
  · simp only [between, List.mem_cons, List.not_mem_nil, or_false] at mem
    rcases mem with rfl | rfl | rfl | rfl | rfl <;> exact ⟨trivial, rfl⟩

end System

end PageStore
