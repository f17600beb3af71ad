import PageStore.Proofs.Schedule.Undisturbed.Tables

/-!
# Where insertions and deletions stop

Until an insertion or a deletion changes a slot it fetches pages, and an insertion may append one
page of zeros to the file of its table (`Store.Tries`).  Whatever stops it does so before the change.  An
appended page has a free slot, since it is new and a page of a sound file has room for a row
(`Store.storeInFresh_stops`), and the changed page is handed back to where it is
(`Store.storeFrom_hands`).
-/

namespace PageStore

/-! ## What stops an operation -/

namespace Op

variable {α β : Type} {op : Op α} {s after : Store} {stopped : Stop → Store → Prop}

/-- However an operation stops, what stops it and the store that it leaves are so related. -/
def Stops (op : Op α) (s : Store) (stopped : Stop → Store → Prop) : Prop :=
  ∀ stop after, op s = .error stop after → stopped stop after

theorem stops_of_ok {a : α} (ok : op s = .ok a after) : op.Stops s stopped := by
  intro stop left fails
  cases ok.symm.trans fails

theorem Stops.bind {rest : α → Op β} (first : op.Stops s stopped)
    (then' : ∀ a mid, op s = .ok a mid → (rest a).Stops mid stopped) :
    (op >>= rest).Stops s stopped := by
  intro stop left fails
  rcases bind_eq_error.1 fails with fails | ⟨a, mid, ok, fails⟩
  · exact first stop left fails
  · exact then' a mid ok stop left fails

end Op

namespace Store

variable {s mid after : Store} {txn : TxnId} {file : HeapFile} {grows? : Option HeapFile}
  {page : PageId} {frame : Frame} {mode : LockMode} {table : TableId} {row : Row}
  {record : RecordId} {number : Nat} {stop : Stop} {cause : Error}

/-! ## On the way to a change -/

/-- A store in which a transaction has fetched pages, and may have appended one page of zeros
between, to the file that it may append to. -/
inductive Tries (grows? : Option HeapFile) (txn : TxnId) (s : Store) : Store → Prop
  | fetches {after : Store} (fetches : Fetches txn s after) : Tries grows? txn s after
  | appends {file : HeapFile} {locked after : Store} {disk : Disk} (may : grows? = some file)
      (before : Fetches txn s locked)
      (held : locked.locks.mode? txn ⟨file.table, file.pageCount locked.disk⟩ = some .exclusive)
      (writes : file.Writes ⟨file.table, file.pageCount locked.disk⟩ (Bytes.zeros file.pageSize)
        locked.disk disk)
      (rest : Fetches txn { locked with disk := disk } after) : Tries grows? txn s after

theorem Tries.behind (tries : Tries grows? txn mid after) (first : Fetches txn s mid) :
    Tries grows? txn s after := by
  cases tries with
  | fetches fetches => exact .fetches (first.trans fetches)
  | appends may before held writes rest => exact .appends may (first.trans before) held writes rest

/-! ## How insertions and deletions stop -/

/-- How an insertion or a deletion stops.  One that waits has appended nothing, and none stops for
want of room in a page that it has appended. -/
structure Stopped (grows? : Option HeapFile) (txn : TxnId) (s : Store) (stop : Stop)
    (after : Store) : Prop where
  tries : Tries grows? txn s after
  waits : stop = .waiting → Fetches txn s after
  roomy : ∀ page, stop ≠ .failed (.freshPageFull page)

theorem Stopped.behind (stopped : Stopped grows? txn mid stop after) (first : Fetches txn s mid) :
    Stopped grows? txn s stop after :=
  ⟨stopped.tries.behind first, fun waits => first.trans (stopped.waits waits), stopped.roomy⟩

theorem Tries.stopped (tries : Tries grows? txn s after)
    (roomy : ∀ page, cause ≠ .freshPageFull page) :
    Stopped grows? txn s (.failed cause) after :=
  ⟨tries, nofun, fun page same => roomy page (Stop.failed.inj same)⟩

theorem fail_stops {α : Type} (s : Store) (txn : TxnId)
    (roomy : ∀ page, cause ≠ .freshPageFull page) :
    (Op.fail cause : Op α).Stops s (Stopped grows? txn s) := by
  intro stop after fails
  cases fails
  exact Tries.stopped (.fetches (.refl txn s)) roomy

theorem fetch_stops (s : Store) (txn : TxnId) (page : PageId) (mode : LockMode) :
    (fetch txn page mode).Stops s (Stopped grows? txn s) := by
  intro stop after fails
  have fetches := (fetch_leads s txn page mode).of_error fails
  refine ⟨.fetches fetches, fun _ => fetches, fun fresh same => ?_⟩
  cases fetch_fault (same ▸ fails)

theorem acquire_stops (s : Store) (txn : TxnId) (page : PageId) (mode : LockMode) :
    (acquire txn page mode).Stops s (Stopped grows? txn s) :=
  fun stop after refuses => fetch_stops s txn page mode stop after (fetch_of_refused refuses)

/-- Who holds a page exclusively does not wait for it. -/
theorem fetch_not_waiting (held : s.locks.mode? txn page = some .exclusive) :
    fetch txn page mode s ≠ .error .waiting after := by
  intro waits
  obtain ⟨locks, gives, -⟩ := acquire_granted s (Holders.grant_of_exclusive held mode)
  cases loaded : load page { s with locks := locks } with
  | ok frame later => cases (fetch_of_loaded gives loaded).symm.trans waits
  | error stop later =>
    obtain ⟨_, rfl, -⟩ : ∃ cause, stop = .failed cause ∧ FetchFault txn page _ cause :=
      load_fault loaded
    cases (fetch_of_unloaded gives loaded).symm.trans waits

/-! ## Every failure comes before the change -/

/-- What stops a row from being stored in a page stops it before it touches the page. -/
theorem storeRow_stops (tries : Tries grows? txn s mid) (frame : Frame) (row : Row) :
    (storeRow file txn frame row).Stops mid (Stopped grows? txn s) := by
  intro stop after fails
  unfold storeRow at fails
  split at fails
  · cases fails
  · next slot free =>
    unfold Page.insert at fails
    simp only [free] at fails
    split at fails
    · next refuses =>
      cases fails
      refine tries.stopped fun page same => ?_
      split at refuses <;> cases refuses
      cases same
    · cases fails

theorem freeRecord_stops (tries : Tries grows? txn s mid) (frame : Frame) (record : RecordId) :
    (freeRecord file txn frame record).Stops mid (Stopped grows? txn s) := by
  intro stop after fails
  unfold freeRecord at fails
  split at fails
  · next refuses =>
    cases fails
    refine tries.stopped fun page same => ?_
    unfold Page.delete at refuses
    split at refuses
    · cases refuses
      cases same
    · split at refuses <;> cases refuses
      cases same
  · cases fails

/-- An insertion passes over a page that is full by fetching it. -/
theorem storeInPage_passes (stores : storeInPage file txn row number s = .ok none after) :
    Fetches txn s after := by
  obtain ⟨frame, fetched, fetches, rest⟩ := Op.bind_eq_ok.1 stores
  obtain ⟨stored, later, tries, ends⟩ := Op.bind_eq_ok.1 rest
  obtain ⟨first, -⟩ := (fetch_leads s txn _ .exclusive).of_ok fetches
  have stays := (storeRow_ends file txn frame row fetched).of_ok tries
  cases stored with
  | none =>
    cases ends
    exact stays.2 ▸ first
  | some record => cases ends

theorem storeInPage_stops (s : Store) (file : HeapFile) (txn : TxnId) (row : Row) (number : Nat) :
    (storeInPage file txn row number).Stops s (Stopped grows? txn s) := by
  refine (fetch_stops s txn _ .exclusive).bind fun frame fetched fetches => ?_
  obtain ⟨first, -⟩ := (fetch_leads s txn _ .exclusive).of_ok fetches
  exact (storeRow_stops (.fetches first) frame row).bind fun stored after _ =>
    Op.stops_of_ok rfl

theorem freeInPage_stops (s : Store) (file : HeapFile) (txn : TxnId) (record : RecordId) :
    (freeInPage file txn record).Stops s (Stopped grows? txn s) := by
  refine (fetch_stops s txn _ .exclusive).bind fun frame fetched fetches => ?_
  obtain ⟨first, -⟩ := (fetch_leads s txn _ .exclusive).of_ok fetches
  exact (freeRecord_stops (.fetches first) frame record).bind fun _ after _ =>
    Op.stops_of_ok rfl

/-! ## Appending -/

/-- An append either does not get its page, or comes to fetch it once it was written. -/
theorem appendPage_cases (s : Store) (file : HeapFile) (txn : TxnId) :
    let page : PageId := ⟨file.table, file.pageCount s.disk⟩
    (∃ stop after, acquire txn page .exclusive s = .error stop after ∧
        appendPage file txn s = .error stop after) ∨
      ∃ locked disk, Fetches txn s locked ∧ locked.disk = s.disk ∧
        locked.locks.mode? txn page = some .exclusive ∧
        file.Writes page (Bytes.zeros file.pageSize) locked.disk disk ∧
        appendPage file txn s = fetch txn page .exclusive { locked with disk := disk } := by
  intro page
  have counts : appendPage file txn s = (do
      acquire txn page .exclusive
      writeInto file (.blank page file.pageSize)
      fetch txn page .exclusive : Op Frame) s := rfl
  rw [counts]
  cases asked : acquire txn page .exclusive s with
  | error stop after => exact .inl ⟨stop, after, rfl, Op.bind_error asked⟩
  | ok _ locked =>
    obtain ⟨same, widens, held⟩ := (acquire_leads s txn page .exclusive).of_ok asked
    obtain ⟨disk, writes, wrote⟩ := writeInto_blank locked file page.number
    exact .inr ⟨locked, disk, .of_locks same widens, by rw [same], held.elim id id, writes,
      (Op.bind_ok asked).trans (Op.bind_ok wrote)⟩

/-- A page that was appended is fetched as it was written, since it cannot have been cached. -/
theorem appendPage_blank (coherent : Coherent s) (listed : s.catalog.file file.table = .ok file)
    (appended : appendPage file txn s = .ok frame after) :
    Tries (some file) txn s after ∧ ∃ page, frame.page = .blank page file.pageSize := by
  rcases appendPage_cases s file txn with
    ⟨stop, _, -, fails⟩ | ⟨locked, disk, before, same, held, writes, fetches⟩
  · cases fails.symm.trans appended
  · have listed' : locked.catalog.file file.table = .ok file := by rw [before.catalog, listed]
    rw [← same] at writes fetches held
    obtain ⟨rest, cached, -⟩ := (fetch_leads _ txn _ .exclusive).of_ok (fetches.symm.trans appended)
    refine ⟨.appends rfl before held writes rest, ⟨file.table, file.pageCount locked.disk⟩, ?_⟩
    have stored : ({ locked with disk := disk } : Store).Stores
        ⟨file.table, file.pageCount locked.disk⟩ _ := ⟨file, listed', writes.read_self⟩
    rcases rest.read _ frame cached with old | fresh
    · have coherent' := coherent.turnover before.toTurnover
      have inside := (coherent'.faithful _ frame old).before.lt_pageCount coherent'.catalog listed'
      exact absurd inside (Nat.lt_irrefl _)
    · exact stored.unique fresh

theorem appendPage_stops (s : Store) (file : HeapFile) (txn : TxnId) :
    (appendPage file txn).Stops s (Stopped (some file) txn s) := by
  intro stop after fails
  rcases appendPage_cases s file txn with
    ⟨_, _, refuses, fails'⟩ | ⟨locked, disk, before, same, held, writes, fetches⟩
  · cases fails'.symm.trans fails
    exact acquire_stops s txn _ .exclusive stop after refuses
  · rw [← same] at writes fetches held
    replace fails := fetches.symm.trans fails
    have rest := (fetch_leads _ txn _ .exclusive).of_error fails
    refine ⟨.appends rfl before held writes rest, ?_, fun page full => ?_⟩
    · rintro rfl
      exact absurd fails (fetch_not_waiting held)
    · cases fetch_fault (full ▸ fails)

theorem storeInFresh_stops (coherent : Coherent s) (listed : s.catalog.file file.table = .ok file)
    (txn : TxnId) (row : Row) :
    (storeInFresh file txn row).Stops s (Stopped (some file) txn s) := by
  refine (appendPage_stops s file txn).bind fun frame appended appends => ?_
  obtain ⟨tries, page, blank⟩ := appendPage_blank coherent listed appends
  refine (storeRow_stops tries frame row).bind fun stored after stores => ?_
  cases stored with
  | some record => exact Op.stops_of_ok rfl
  | none =>
    have room := (coherent.catalog _ _ listed).2.room.2
    obtain ⟨slot, free⟩ := Option.isSome_iff_exists.1 (Page.firstFree?_blank page room)
    have full := ((storeRow_ends file txn frame row appended).of_ok stores).1
    rw [blank, free] at full
    cases full

/-! ## Insertions and deletions -/

theorem storeFrom_stops (coherent : Coherent s) (listed : s.catalog.file file.table = .ok file)
    (txn : TxnId) (row : Row) (numbers : List Nat) :
    (storeFrom file txn row numbers).Stops s (Stopped (some file) txn s) := by
  induction numbers generalizing s with
  | nil => exact storeInFresh_stops coherent listed txn row
  | cons number numbers ih =>
    rw [storeFrom_tries]
    refine (storeInPage_stops s file txn row number).bind fun placed after stores => ?_
    cases placed with
    | some placed => exact Op.stops_of_ok rfl
    | none =>
      have first := storeInPage_passes stores
      intro stop last fails
      exact (ih (coherent.turnover first.toTurnover) (by rw [first.catalog, listed])
        stop last fails).behind first

/-- The page that was changed is handed back to where it is. -/
theorem storeFrom_hands (coherent : Coherent s) (listed : s.catalog.file file.table = .ok file)
    (txn : TxnId) (row : Row) (numbers : List Nat) :
    (storeFrom file txn row numbers).Leads s
      (fun stored after => applyRef stored.1 after = .ok () after) (fun _ => True) := by
  induction numbers generalizing s with
  | nil =>
    exact (storeInFresh_leads coherent listed txn row).mono (fun _ _ placed => placed.2)
      fun _ _ => trivial
  | cons number numbers ih =>
    rw [storeFrom_tries]
    refine ((storeInPage_leads coherent listed txn row number).mono (fun _ _ => id)
      fun _ _ => trivial).bind fun placed after holds => ?_
    cases placed with
    | none => exact ih (coherent.readies holds) (by rw [Readies.catalog_eq holds, listed])
    | some placed => exact holds.2

theorem checkRow_stops (s : Store) (file : HeapFile) (txn : TxnId) (row : Row) :
    (checkRow file row).Stops s (Stopped grows? txn s) := by
  unfold checkRow
  split
  · exact Op.stops_of_ok rfl
  · exact fail_stops s txn nofun

theorem fileOf_stops (s : Store) (txn : TxnId) (table : TableId) :
    (fileOf table).Stops s (Stopped grows? txn s) := by
  intro stop after fails
  unfold fileOf Catalog.file at fails
  split at fails <;> cases fails
  exact Tries.stopped (.fetches (.refl txn s)) nofun

theorem checkRecord_stops (s : Store) (file : HeapFile) (txn : TxnId) (record : RecordId) :
    (checkRecord file record).Stops s (Stopped grows? txn s) := by
  have owns : (Op.ofExcept (file.checkPage record.page)).Stops s (Stopped grows? txn s) := by
    unfold HeapFile.checkPage
    split
    · exact Op.stops_of_ok rfl
    · exact fail_stops s txn nofun
  refine owns.bind fun _ checked passes => ?_
  rw [(Op.ofExcept_eq_ok.1 passes).2]
  have counts : (pageCount file).Stops s (Stopped grows? txn s) := Op.stops_of_ok rfl
  refine counts.bind fun count counted same => ?_
  cases same
  split
  · exact fail_stops s txn nofun
  · exact Op.stops_of_ok rfl

theorem insertInto_stops (coherent : Coherent s) (listed : s.catalog.file file.table = .ok file)
    (txn : TxnId) (row : Row) :
    (insertInto file txn row).Stops s (Stopped (some file) txn s) := by
  refine (checkRow_stops s file txn row).bind fun _ checked checks => ?_
  rw [(checkRow_leads s file row).of_ok checks]
  have counts : (pageCount file).Stops s (Stopped (some file) txn s) := Op.stops_of_ok rfl
  refine counts.bind fun count counted same => ?_
  cases same
  exact (storeFrom_stops coherent listed txn row _).bind fun _ _ _ => Op.stops_of_ok rfl

theorem insertInto_hands (coherent : Coherent s) (listed : s.catalog.file file.table = .ok file)
    (txn : TxnId) (row : Row) :
    (insertInto file txn row).Leads s
      (fun refs after => applyRefs refs after = .ok () after) (fun _ => True) := by
  refine ((checkRow_leads s file row).mono (fun _ _ => id) fun _ _ => trivial).bind
    fun _ checked same => ?_
  rw [same]
  have counts : (pageCount file).Leads s (fun _ after => after = s) (fun _ => True) := rfl
  refine counts.bind fun count counted same => ?_
  rw [same]
  exact (storeFrom_hands coherent listed txn row _).bind fun _ _ handed =>
    Op.leads_pure _ (Op.bind_ok handed)

theorem insert_stops (coherent : Coherent s) (txn : TxnId) (table : TableId) (row : Row) :
    (insert txn table row).Stops s (Stopped (s.catalog.file table).toOption txn s) := by
  refine (fileOf_stops s txn table).bind fun file found finds => ?_
  obtain ⟨same, listed⟩ := (fileOf_leads s table).of_ok finds
  obtain rfl : file.table = table := (coherent.catalog _ _ listed).1
  rw [same, listed]
  refine (insertInto_stops coherent listed txn row).bind fun refs after inserts => ?_
  exact Op.stops_of_ok ((insertInto_hands coherent listed txn row).of_ok inserts)

theorem deleteFrom_stops (s : Store) (file : HeapFile) (txn : TxnId) (row : Row) :
    (deleteFrom file txn row).Stops s (Stopped grows? txn s) := by
  rcases row with ⟨fields, held⟩
  cases held with
  | none => exact fail_stops s txn nofun
  | some record =>
    refine (checkRecord_stops s file txn record).bind fun _ checked checks => ?_
    rw [((checkRecord_leads s file record).of_ok checks).1]
    exact (freeInPage_stops s file txn record).bind fun _ _ _ => Op.stops_of_ok rfl

theorem deleteFrom_hands (coherent : Coherent s) (listed : s.catalog.file file.table = .ok file)
    (txn : TxnId) (row : Row) :
    (deleteFrom file txn row).Leads s
      (fun refs after => applyRefs refs after = .ok () after) (fun _ => True) := by
  rcases row with ⟨fields, held⟩
  cases held with
  | none => trivial
  | some record =>
    refine ((checkRecord_leads s file record).mono (fun _ _ => id) fun _ _ => trivial).bind
      fun _ checked ⟨same, own⟩ => ?_
    rw [same]
    have frees := (freeInPage_leads coherent (own ▸ listed) txn).mono (fun _ _ freed => freed.2)
      fun _ _ => trivial
    exact frees.bind fun _ _ handed => Op.leads_pure _ (Op.bind_ok handed)

theorem delete_stops (coherent : Coherent s) (txn : TxnId) (row : Row) :
    (delete txn row).Stops s (Stopped none txn s) := by
  rcases row with ⟨fields, held⟩
  cases held with
  | none => exact fail_stops s txn nofun
  | some record =>
    refine (fileOf_stops s txn record.page.table).bind fun file found finds => ?_
    obtain ⟨same, listed⟩ := (fileOf_leads s record.page.table).of_ok finds
    have own : s.catalog.file file.table = .ok file := by
      rw [(coherent.catalog _ _ listed).1, listed]
    rw [same]
    refine (deleteFrom_stops s file txn _).bind fun refs after deletes => ?_
    exact Op.stops_of_ok ((deleteFrom_hands coherent own txn _).of_ok deletes)

/-! ## Calls that are halted on the way -/

/-- An insertion that goes on from page to page stops as one does that nobody halts, and is halted
having fetched a page. -/
theorem advance_insert (coherent : Coherent s) (listed : s.catalog.file file.table = .ok file)
    (txn : TxnId) (row : Row) (numbers : List Nat) :
    ((Call.insert file row numbers).advance txn).Stops s (Stopped (some file) txn s) ∧
      ∀ next after, (Call.insert file row numbers).advance txn s = .ok (.inr next) after →
        Fetches txn s after := by
  cases numbers with
  | nil =>
    refine ⟨(storeInFresh_stops coherent listed txn row).bind fun stored placed stores => ?_,
      fun next after goesOn => ?_⟩
    · have handed := ((storeInFresh_leads coherent listed txn row).of_ok stores).2
      exact Op.stops_of_ok (Op.bind_ok handed)
    · obtain ⟨stored, placed, stores, rest⟩ := Op.bind_eq_ok.1 goesOn
      obtain ⟨_, _, _, ends⟩ := Op.bind_eq_ok.1 rest
      cases ends
  | cons number numbers =>
    refine ⟨(storeInPage_stops s file txn row number).bind fun stored placed stores => ?_,
      fun next after goesOn => ?_⟩
    · cases stored with
      | none => exact Op.stops_of_ok rfl
      | some stored =>
        have handed := ((storeInPage_leads coherent listed txn row number).of_ok stores).2
        exact Op.stops_of_ok (Op.bind_ok handed)
    · obtain ⟨stored, placed, stores, rest⟩ := Op.bind_eq_ok.1 goesOn
      cases stored with
      | none =>
        cases rest
        exact storeInPage_passes stores
      | some stored =>
        obtain ⟨_, _, _, ends⟩ := Op.bind_eq_ok.1 rest
        cases ends

theorem advance_delete (coherent : Coherent s)
    (listed : s.catalog.file record.page.table = .ok file) (txn : TxnId) :
    ((Call.delete file record).advance txn).Stops s (Stopped none txn s) := by
  refine (freeInPage_stops s file txn record).bind fun ref freed frees => ?_
  have handed := ((freeInPage_leads coherent listed txn).of_ok frees).2
  exact Op.stops_of_ok (Op.bind_ok handed)

end Store

end PageStore
