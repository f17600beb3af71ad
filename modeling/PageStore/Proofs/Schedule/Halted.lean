import PageStore.Proofs.Schedule.Views

/-!
# What a halted call knows

A transaction keeps what it holds, whatever others do (`Moves.stays`), and a page that it holds
shows what it showed (`Moves.shows`): only who holds a page exclusively writes it, and only its
writer drops it by an abort.

So a halted call knows what it has come by (`Store.Knows`).  A scan holds the pages that it has
read, and has found the rows that they show; an insertion that was halted after its first page holds
that page exclusively.  Every action keeps that (`Informed.act`).
-/

namespace PageStore

namespace Store

variable {s after : Store} {txn other : TxnId} {page : PageId}

/-! ## Locks that stay -/

/-- Whoever asks for locks, everybody keeps those that they hold. -/
theorem Readies.stays {mode : LockMode} (readies : Readies other s after)
    (held : s.locks.mode? txn page = some mode) :
    after.locks.mode? txn page = some mode ∨ after.locks.mode? txn page = some .exclusive := by
  have asks {s after : Store} {mode : LockMode} (widens : s.locks.Widens other after.locks)
      (held : s.locks.mode? txn page = some mode) :
      after.locks.mode? txn page = some mode ∨ after.locks.mode? txn page = some .exclusive := by
    rcases eq_or_ne txn other with rfl | ne
    · exact widens.mine page mode held
    · exact .inl ((widens.others txn page ne).trans held)
  cases readies with
  | fetches fetches => exact asks fetches.locks held
  | @appends locked grown _ before appends rest =>
    have same : grown.locks = locked.locks := by cases appends; rfl
    rcases asks before.locks held with now | now
    · exact asks rest.locks (by rw [same, now])
    · exact .inr ((asks rest.locks (by rw [same, now])).elim id id)

theorem Readies.holds (readies : Readies other s after)
    (held : (s.locks.mode? txn page).isSome) : (after.locks.mode? txn page).isSome := by
  obtain ⟨mode, held⟩ := Option.isSome_iff_exists.1 held
  rcases readies.stays held with now | now <;> rw [now] <;> rfl

end Store

open Store

/-! ## What moves leave -/

/-- Whether an action is one by which a transaction may give back locks. -/
def Action.givesBack (txn : TxnId) : Action → Bool
  | commit other | abort other | release other _ => other == txn
  | begin | demand .. | advance _ | flushPages _ | flushAll | discard _ | turn .. => false

/-- The transaction whose call an action begins or takes on. -/
def Action.caller? : Action → Option TxnId
  | demand txn _ | advance txn => some txn
  | begin | commit _ | abort _ | flushPages _ | flushAll | discard _ | release .. | turn .. => none

/-- Whether a report tells of a change that a transaction made in a table. -/
def Report.changes (txn : TxnId) (table : TableId) : Report → Bool
  | answered other answer =>
    other == txn && answer.change?.any fun change => change.record.page.table == table
  | quiet | begun _ | halted _ | stopped .. | committed _ | notCommitted .. | aborted _ => false

/-- Whether a report tells of a row that was inserted into a table. -/
def Report.inserts (table : TableId) : Report → Bool
  | answered _ (.inserted record _) => record.page.table == table
  | _ => false

namespace System

variable {s after : Store} {action : Action} {report : Report} {txn : TxnId} {page : PageId}
  {bytes : Bytes} {file : HeapFile} {number : Nat} {found : List Row}

/-- A transaction that gives back nothing keeps what it holds. -/
theorem Moves.stays {mode : LockMode} (moves : Moves s action report after)
    (consistent : s.locks.Consistent) (keeps : action.givesBack txn = false)
    (held : s.locks.mode? txn page = some mode) :
    after.locks.mode? txn page = some mode ∨ after.locks.mode? txn page = some .exclusive := by
  have ends {other : TxnId} {pages : List PageId} {flushed : Store}
      (persists : Persists pages s flushed) (ne : (other == txn) = false) :
      (flushed.locks.releaseAll other).mode? txn page = some mode := by
    rw [persists.locks, consistent.mode?_releaseAll, if_neg (beq_eq_false_iff_ne.1 ne).symm, held]
  cases moves with
  | readies readies _ => exact readies.stays held
  | alters _ alters =>
    rcases alters with ⟨readied, readies, rewrites⟩
    cases rewrites
    exact readies.stays held
  | commits persists => exact .inl (ends persists keeps)
  | fails persists =>
    rw [abort_eq]
    exact .inl (ends persists keeps)
  | @aborts other =>
    have ne : other ≠ txn := beq_eq_false_iff_ne.1 keeps
    rw [abort_eq]
    exact .inl (by rw [consistent.mode?_releaseAll, if_neg ne.symm, held])
  | flushes _ persists => exact .inl (by rw [persists.locks, held])
  | discards => exact .inl (by rw [dropPage_eq, held])
  | @releases other place =>
    have ne : other ≠ txn := beq_eq_false_iff_ne.1 keeps
    refine .inl ?_
    show (s.locks.release other place).mode? txn page = some mode
    rw [LockTable.mode?_release, if_neg fun h => ne h.2.symm, held]

theorem Moves.holds (moves : Moves s action report after) (consistent : s.locks.Consistent)
    (keeps : action.givesBack txn = false) (held : (s.locks.mode? txn page).isSome) :
    (after.locks.mode? txn page).isSome := by
  obtain ⟨mode, held⟩ := Option.isSome_iff_exists.1 held
  rcases moves.stays consistent keeps held with now | now <;> rw [now] <;> rfl

/-- A page that a transaction holds, and does not change itself, shows what it showed. -/
theorem Moves.shows (moves : Moves s action report after) (coherent : s.Coherent)
    (guarded : s.Guarded) (spares : action.Spares s) (keeps : action.givesBack txn = false)
    (unchanged : report.changes txn page.table = false)
    (held : (s.locks.mode? txn page).isSome) (shows : s.Shows page bytes) :
    after.Shows page bytes := by
  cases moves with
  | readies readies _ => exact shows.readies coherent readies
  | @alters writer answer change _ made alters =>
    rcases alters with ⟨readied, readies, rewrites⟩
    have shows := shows.readies coherent readies
    have held := readies.holds held
    have guarded := guarded.readies readies
    rcases rewrites with @⟨into, old, changed, listed, cached, id, exclusive, changes⟩
    have apart : page ≠ change.record.page := by
      rintro rfl
      have same : txn = writer := (guarded.locks.exclusive _).eq_of_mode? exclusive held
      simp [Report.changes, made, same] at unchanged
    refine shows.congr ?_ fun _ stores => stores
    rw [get?_withFrame changes id, if_neg apart]
  | @commits writer flushed persists =>
    exact (shows.persists persists).congr rfl fun _ stores => stores
  | @fails other _ _ _ persists =>
    have ne : other ≠ txn := beq_eq_false_iff_ne.1 keeps
    exact (shows.persists persists).abort (guarded.persists persists) (persists.locks ▸ held) ne
  | @aborts other =>
    have ne : other ≠ txn := beq_eq_false_iff_ne.1 keeps
    exact shows.abort guarded held ne
  | flushes _ persists => exact shows.persists persists
  | discards => exact shows.dropPage coherent spares
  | releases => exact shows.congr rfl fun _ stores => stores

/-- Pages without rows have none until a row is inserted into their table. -/
theorem Moves.vacant (moves : Moves s action report after) (coherent : s.Coherent)
    (listed : s.catalog.file file.table = .ok file) (inserts : report.inserts file.table = false)
    (vacant : s.Vacant file number) : after.Vacant file number := by
  have aborts {s : Store} (other : TxnId) (vacant : s.Vacant file number) :
      (s.abort other).Vacant file number := by
    exact vacant.of_kept (by rw [abort_eq]) (by rw [abort_eq]) fun page frame cached =>
      (get?_abort_eq_some.1 cached).1
  cases moves with
  | readies readies _ => exact vacant.readies coherent.catalog readies
  | @alters writer answer change _ made alters =>
    rcases alters with ⟨readied, readies, rewrites⟩
    refine (vacant.readies coherent.catalog readies).rewrites ?_ rewrites fun table => ?_
    · rw [readies.catalog_eq, listed]
    · cases answer with
      | inserted record row =>
        cases made
        rw [Report.inserts, beq_eq_false_iff_ne] at inserts
        exact absurd table inserts
      | deleted record =>
        cases made
        rfl
      | fetched frame => cases made
      | scanned rows => cases made
  | commits persists =>
    exact (vacant.persists coherent persists).of_kept rfl rfl fun _ _ cached => cached
  | fails persists => exact aborts _ (vacant.persists coherent persists)
  | aborts => exact aborts _ vacant
  | flushes _ persists => exact vacant.persists coherent persists
  | discards =>
    exact vacant.of_kept (by rw [dropPage_eq]) (by rw [dropPage_eq])
      fun _ _ cached => get?_of_dropPage cached
  | releases => exact vacant.of_kept rfl rfl fun _ _ cached => cached

end System

variable {s after : Store} {txn other : TxnId} {file : HeapFile} {number : Nat} {mode : LockMode}
  {found rows : List Row} {row : Row}

/-! ## What a call comes by -/

/-- A scan begins with the first page, and an insertion is to try every page that there is. -/
theorem Demand.start_call (sound : s.catalog.Sound) (demand : Demand) :
    demand.start.Leads s
      (fun call _ =>
        match call with
        | .scan _ _ number found => number = 0 ∧ found = []
        | .insert file _ numbers => s.catalog.file file.table = .ok file ∧
            numbers = List.range (file.pageCount s.disk)
        | .fetch .. | .delete .. => True)
      (fun after => after = s) := by
  cases demand with
  | fetch page mode => trivial
  | insert table row =>
    refine (fileOf_leads s table).bind fun file found ⟨same, listed⟩ => ?_
    rw [same]
    refine (checkRow_leads s file row).bind ?_
    intro _ checked same
    rw [same]
    exact ⟨by rw [(sound table file listed).1, listed], rfl⟩
  | delete row =>
    rcases row with ⟨fields, held⟩
    cases held with
    | none => exact Op.leads_fail _ rfl
    | some record =>
      refine (fileOf_leads s record.page.table).bind fun file found ⟨same, _⟩ => ?_
      rw [same]
      exact (checkRecord_leads s file record).bind fun _ _ _ => trivial
  | scan table mode =>
    refine (fileOf_leads s table).bind fun file found _ => ?_
    exact ⟨rfl, rfl⟩

/-- What a scan finds on a page is what the page shows, and from then on the page is held. -/
theorem Call.readPage_shows (coherent : Coherent s)
    (read : readPage file txn mode number s = .ok rows after) :
    Readies txn s after ∧ (after.locks.mode? txn ⟨file.table, number⟩).isSome ∧
      ∃ bytes, after.Shows ⟨file.table, number⟩ bytes ∧
        (Page.ofStored ⟨file.table, number⟩ bytes).rows file.schema = .ok rows := by
  rw [readPage_eq] at read
  obtain ⟨frame, fetched, fetches, gives⟩ := Op.bind_eq_ok.1 read
  obtain ⟨rows, rfl⟩ := Op.ofExcept_eq_ok.1 gives
  obtain ⟨fetches, cached, held⟩ := (fetch_leads s txn _ mode).of_ok fetches
  have id : (Page.ofStored ⟨file.table, number⟩ frame.page.bytes).id = frame.page.id :=
    ((coherent.turnover fetches.toTurnover).faithful _ frame cached).id.symm
  refine ⟨.fetches fetches, ?_, frame.page.bytes, .cached cached, ?_⟩
  · rcases held with held | held <;> rw [held] <;> rfl
  · rw [Page.rows_of_bytes id rfl, rows]

theorem storeRow_locks {frame : Frame} {stored : Option RecordId}
    (stores : storeRow file txn frame row s = .ok stored after) : after.locks = s.locks := by
  have ends := (storeRow_ends file txn frame row s).of_ok stores
  cases stored with
  | none => rw [ends.2]
  | some record =>
    obtain ⟨changed, -, rfl⟩ := ends
    rw [setFrame_eq]

/-- A page that was tried for an insertion is held exclusively from then on, and a row that was
stored is on that page. -/
theorem storeInPage_locks (coherent : Coherent s) {stored : Option (PageRef × RecordId)}
    (stores : storeInPage file txn row number s = .ok stored after) :
    after.locks.mode? txn ⟨file.table, number⟩ = some .exclusive ∧
      ∀ ref record, stored = some (ref, record) → record.page.table = file.table := by
  obtain ⟨frame, fetched, fetches, rest⟩ := Op.bind_eq_ok.1 stores
  obtain ⟨record, later, stores, ends⟩ := Op.bind_eq_ok.1 rest
  obtain ⟨-, opened⟩ := (fetch_opens coherent txn ⟨file.table, number⟩).of_ok fetches
  cases ends
  refine ⟨by rw [storeRow_locks stores, opened.exclusive], fun ref found same => ?_⟩
  cases record with
  | none => cases same
  | some record =>
    cases same
    rw [page_of_storeRow stores _ rfl, opened.id]

theorem storeInFresh_table (coherent : Coherent s) (listed : s.catalog.file file.table = .ok file)
    {ref : PageRef} {record : RecordId}
    (stores : storeInFresh file txn row s = .ok (ref, record) after) :
    record.page.table = file.table := by
  obtain ⟨frame, fetched, appends, rest⟩ := Op.bind_eq_ok.1 stores
  obtain ⟨stored, later, stores, ends⟩ := Op.bind_eq_ok.1 rest
  obtain ⟨page, table, -, opened⟩ := (appendPage_opens coherent listed txn).of_ok appends
  cases stored with
  | none => cases ends
  | some stored =>
    cases ends
    rw [page_of_storeRow stores _ rfl, opened.id, table]

/-- Which calls insert rows, and into which table. -/
theorem Call.advance_inserts (coherent : Coherent s) {call : Call} {ends : Answer ⊕ Call}
    (registered : call.Registered s.catalog) (advances : call.advance txn s = .ok ends after) :
    match ends with
    | .inl (.inserted record _) => ∃ file row numbers,
        call = .insert file row numbers ∧ record.page.table = file.table
    | .inr (.insert file row numbers) => ∃ number, call = .insert file row (number :: numbers)
    | _ => True := by
  cases passes_of_advance advances with
  | appended stores _ =>
    exact ⟨_, _, _, rfl, storeInFresh_table coherent registered stores⟩
  | inserted stores _ =>
    exact ⟨_, _, _, rfl, (storeInPage_locks coherent stores).2 _ _ rfl⟩
  | full _ => exact ⟨_, rfl⟩
  | fetched _ => trivial
  | deleted _ _ => trivial
  | read _ _ => trivial
  | scanned _ => trivial

/-! ## What a halted call knows -/

namespace Store

/-- The rows of the first pages of a table, with these pages held by the transaction that read
them. -/
structure Scanned (txn : TxnId) (file : HeapFile) (number : Nat) (found : List Row) (s : Store) :
    Prop where
  reads : s.Reads file number found
  held : ∀ n < number, (s.locks.mode? txn ⟨file.table, n⟩).isSome

/-- What a halted call of a transaction knows of the pages behind it. -/
def Knows (s : Store) (txn : TxnId) : Call → Prop
  | .scan file _ number found => s.Scanned txn file number found
  | .insert file _ numbers =>
    (∃ count, numbers = List.range count) ∨
      s.locks.mode? txn ⟨file.table, 0⟩ = some .exclusive
  | .fetch .. | .delete .. => True

theorem Scanned.readies (scanned : s.Scanned txn file number found) (coherent : Coherent s)
    (readies : Readies other s after) : after.Scanned txn file number found :=
  ⟨scanned.reads.congr fun _ _ _ shows => shows.readies coherent readies,
    fun n lt => readies.holds (scanned.held n lt)⟩

end Store

/-- A call that goes on knows what it has come by. -/
theorem Call.advance_knows (coherent : Coherent s) {call next : Call}
    (registered : call.Registered s.catalog) (knows : s.Knows txn call)
    (advances : call.advance txn s = .ok (.inr next) after) : after.Knows txn next := by
  cases passes_of_advance advances with
  | full tried =>
    have readies := (storeInPage_leads coherent registered txn _ _).of_ok tried
    rcases knows with ⟨count, untried⟩ | exclusive
    · -- The first page of a range is page zero.
      cases count with
      | zero => cases untried
      | succ count =>
        rw [List.range_succ_eq_map] at untried
        cases untried
        exact .inr (storeInPage_locks coherent tried).1
    · exact .inr ((readies.stays exclusive).elim id id)
  | read inside reads =>
    obtain ⟨readies, held, bytes, shows, rows⟩ := readPage_shows coherent reads
    have scanned := Scanned.readies knows coherent readies
    refine ⟨.snoc scanned.reads shows rows, fun n lt => ?_⟩
    rcases Nat.lt_succ_iff_lt_or_eq.1 lt with before | rfl
    · exact scanned.held n before
    · exact held

namespace System

variable {sys start later : System} {action : Action} {report : Report} {reports more : List Report}
  {call : Call}

theorem Moves.scanned (moves : Moves s action report after) (coherent : s.Coherent)
    (guarded : s.Guarded) (spares : action.Spares s) (keeps : action.givesBack txn = false)
    (unchanged : report.changes txn file.table = false)
    (scanned : s.Scanned txn file number found) : after.Scanned txn file number found :=
  ⟨scanned.reads.congr fun n _ lt shows =>
      moves.shows coherent guarded spares keeps unchanged (scanned.held n lt) shows,
    fun n lt => moves.holds guarded.locks keeps (scanned.held n lt)⟩

theorem Moves.knows (moves : Moves s action report after) (coherent : s.Coherent)
    (guarded : s.Guarded) (spares : action.Spares s) (keeps : action.givesBack txn = false)
    (unchanged : ∀ table, report.changes txn table = false)
    (knows : s.Knows txn call) : after.Knows txn call := by
  cases call with
  | fetch page mode => trivial
  | delete file record => trivial
  | scan file mode number found =>
    exact Moves.scanned moves coherent guarded spares keeps (unchanged _) knows
  | insert file row numbers =>
    rcases knows with untried | exclusive
    · exact .inl untried
    · exact .inr ((moves.stays guarded.locks keeps exclusive).elim id id)

/-- The call of a transaction is left alone by all but its own actions. -/
theorem calls_act (sys : System) (other : action.caller? ≠ some txn) :
    (sys.act action).2.calls.get? txn = sys.calls.get? txn ∧
      ∀ table, (sys.act action).1.changes txn table = false := by
  have outcome := sys.act_outcome action
  generalize sys.act action = done at outcome ⊢
  cases outcome with
  | @starts caller =>
    have ne : txn ≠ caller := fun same => other (same ▸ rfl)
    exact ⟨by rw [Dictionary.get?_put, if_neg ne], fun _ => rfl⟩
  | @answers caller =>
    have ne : txn ≠ caller := fun same => other (same ▸ rfl)
    exact ⟨by rw [Dictionary.get?_erase, if_neg ne], fun _ => by simp [Report.changes, ne.symm]⟩
  | @goesOn caller =>
    have ne : txn ≠ caller := fun same => other (same ▸ rfl)
    exact ⟨by rw [Dictionary.get?_put, if_neg ne], fun _ => rfl⟩
  | @fails caller =>
    have ne : txn ≠ caller := fun same => other (same ▸ rfl)
    exact ⟨by rw [Dictionary.get?_erase, if_neg ne], fun _ => rfl⟩
  | _ => exact ⟨rfl, fun _ => rfl⟩

/-- A transaction with a halted call gives nothing back. -/
theorem act_of_halted (halted : sys.calls.get? txn = some call)
    (gives : action.givesBack txn = true) : (sys.act action).2 = sys := by
  have busy {caller : TxnId} (own : (caller == txn) = true) : sys.isFree caller = false := by
    simp [beq_iff_eq.1 own, isFree, Dictionary.contains, halted]
  have outcome := sys.act_outcome action
  generalize sys.act action = done at outcome ⊢
  cases outcome with
  | nothing => rfl
  | commits free _ | falters free _ | aborts free | releases free =>
    rw [busy gives] at free
    cases free
  | _ => cases gives

/-- A system in which writes are locked and halted calls go on from what they know. -/
structure Informed (sys : System) : Prop extends sys.Steady where
  guarded : sys.store.Guarded
  knows : ∀ txn call, sys.calls.get? txn = some call → sys.store.Knows txn call

theorem knows_demand (informed : sys.Informed) (demand : Demand)
    (now : (sys.act (.demand txn demand)).2.calls.get? txn = some call) :
    (sys.act (.demand txn demand)).2.store.Knows txn call := by
  have outcome := sys.act_outcome (.demand txn demand)
  generalize sys.act (.demand txn demand) = done at outcome now ⊢
  cases outcome with
  | nothing | refuses _ => exact informed.knows txn call now
  | starts starts =>
    have begins := (Demand.start_call informed.coherent.catalog demand).of_ok starts
    rw [Dictionary.get?_put, if_pos rfl] at now
    cases now
    cases call with
    | fetch page mode => trivial
    | delete file record => trivial
    | scan file mode number found =>
      obtain ⟨rfl, rfl⟩ := begins
      exact ⟨.nil, fun n lt => absurd lt (Nat.not_lt_zero n)⟩
    | insert file row numbers => exact .inl ⟨_, begins.2⟩

theorem knows_advance (informed : sys.Informed)
    (now : (sys.act (.advance txn)).2.calls.get? txn = some call) :
    (sys.act (.advance txn)).2.store.Knows txn call := by
  have moves := act_moves informed.toSteady (.advance txn)
  have outcome := sys.act_outcome (.advance txn)
  generalize sys.act (.advance txn) = done at moves outcome now ⊢
  cases outcome with
  | nothing => exact informed.knows txn call now
  | @goesOn _ first _ _ halted advances =>
    rw [Dictionary.get?_put, if_pos rfl] at now
    cases now
    exact first.advance_knows informed.coherent (informed.registered txn first halted)
      (informed.knows txn first halted) advances
  | waits _ _ =>
    exact moves.knows informed.coherent informed.guarded trivial rfl (fun _ => rfl)
      (informed.knows txn call now)
  | answers _ _ | fails _ _ =>
    rw [Dictionary.get?_erase, if_pos rfl] at now
    cases now

/-- Every action leaves the halted calls with what they know. -/
theorem Informed.act (informed : sys.Informed) (spares : action.Spares sys.store) :
    (sys.act action).2.Informed := by
  have moves := act_moves informed.toSteady action
  refine ⟨informed.toSteady.act action, moves.guarded informed.guarded spares.keepsWrites,
    fun txn call now => ?_⟩
  by_cases own : action.caller? = some txn
  · cases action with
    | demand caller demand =>
      cases own
      exact knows_demand informed demand now
    | advance caller =>
      cases own
      exact knows_advance informed now
    | _ => cases own
  · obtain ⟨same, unchanged⟩ := sys.calls_act own
    rw [same] at now
    have knows := informed.knows txn call now
    cases gives : action.givesBack txn with
    | true =>
      rw [act_of_halted now gives]
      exact knows
    | false => exact moves.knows informed.coherent informed.guarded spares gives unchanged knows

theorem Fresh.informed (fresh : start.Fresh) : start.Informed := by
  refine ⟨fresh.steady, fresh.guarded, fun txn call halted => ?_⟩
  rw [fresh.calls] at halted
  cases halted

theorem Run.informed (run : Run (fun sys action => action.Spares sys.store) start reports sys)
    (informed : start.Informed) : sys.Informed := by
  induction run with
  | nil => exact informed
  | act _ _ spares ih => exact ih.act spares

end System

end PageStore
