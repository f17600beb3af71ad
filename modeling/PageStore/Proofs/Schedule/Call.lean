import PageStore.Proofs.Query.Turn
import PageStore.Proofs.Store.Rows

/-!
# Calls, one page at a time

Transactions run side by side, and a call of one can be halted where it goes on to another page, or
where it waits for a lock.  `Call` is what is left of a call when it is halted: an insertion has
page numbers still to try, a scan has a page number to go on from and the rows that it found.

`Demand.start` is what a call does before it touches any page, and `Call.advance` takes it through
one page.  A call that must wait stays as it was, so that advancing it again judges its request
again and then does what it had halted before.  Taken through all its pages without a halt, an
insertion or deletion is the operation of the store (`insert_eq_ends`, `delete_eq_ends`), and so is a
scan (`scan_eq_ends`, once it is known which pages a scan reads).
-/

namespace PageStore

/-- What a transaction calls for. -/
inductive Demand where
  | fetch (page : PageId) (mode : LockMode)
  | insert (table : TableId) (row : Row)
  | delete (row : Row)
  | scan (table : TableId) (mode : LockMode)
deriving DecidableEq, Repr, Inhabited

/-- What is left of a call. -/
inductive Call where
  | fetch (page : PageId) (mode : LockMode)
  /-- The pages of these numbers are to be tried, and then a fresh page. -/
  | insert (file : HeapFile) (row : Row) (numbers : List Nat)
  | delete (file : HeapFile) (record : RecordId)
  /-- The pages from a number on are to be read. -/
  | scan (file : HeapFile) (mode : LockMode) (number : Nat) (found : List Row)
deriving DecidableEq, Repr, Inhabited

/-- What a call gives in the end. -/
inductive Answer where
  | fetched (frame : Frame)
  | inserted (record : RecordId) (row : Row)
  | deleted (record : RecordId)
  | scanned (rows : List Row)
deriving DecidableEq, Repr, Inhabited

/-- What a record holds from now on. -/
structure Change where
  record : RecordId
  row : Option Row
deriving DecidableEq, Repr, Inhabited

/-- The change that a call made, if it made one. -/
def Answer.change? : Answer → Option Change
  | inserted record row => some ⟨record, some (row.storedAt record)⟩
  | deleted record => some ⟨record, none⟩
  | fetched _ | scanned _ => none

/-- Begins a call. -/
def Demand.start : Demand → Op Call
  | fetch page mode => return .fetch page mode
  | insert table row => do
    let file ← Store.fileOf table
    Store.checkRow file row
    return .insert file row (List.range (← Store.pageCount file))
  | delete row =>
    match row.record with
    | none => Op.fail (.noRecord row)
    | some record => do
      let file ← Store.fileOf record.page.table
      Store.checkRecord file record
      return .delete file record
  | scan table mode => return .scan (← Store.fileOf table) mode 0 []

namespace Call

/-- The rows on one page of a file, as a scan comes by them. -/
def readPage (file : HeapFile) (txn : TxnId) (mode : LockMode) (number : Nat) : Op (List Row) :=
  fun s =>
    match Plan.turnPages file txn mode 1 number (s, none) with
    | .ok row (s, cursor) => .ok (row.toList ++ (cursor.map Cursor.pending).getD []) s
    | .error stop (s, _) => .error stop s

/-- Takes a call through one page. -/
def advance (txn : TxnId) : Call → Op (Answer ⊕ Call)
  | fetch page mode => return .inl (.fetched (← Store.fetch txn page mode))
  | insert file row [] => do
    let (ref, record) ← Store.storeInFresh file txn row
    Store.applyRef ref
    return .inl (.inserted record row)
  | insert file row (number :: numbers) => do
    match ← Store.storeInPage file txn row number with
    | none => return .inr (.insert file row numbers)
    | some (ref, record) =>
      Store.applyRef ref
      return .inl (.inserted record row)
  | delete file record => do
    Store.applyRef (← Store.freeInPage file txn record)
    return .inl (.deleted record)
  | scan file mode number found => do
    if number < (← Store.pageCount file) then
      return .inr (.scan file mode (number + 1) (found ++ (← readPage file txn mode number)))
    else return .inl (.scanned found)

/-- The tables that a call goes on with are in the catalog. -/
def Registered (catalog : Catalog) : Call → Prop
  | fetch .. => True
  | insert file .. => catalog.file file.table = .ok file
  | delete file record => catalog.file record.page.table = .ok file
  | scan file .. => catalog.file file.table = .ok file

end Call

open Store

variable {s after : Store} {txn : TxnId} {file : HeapFile} {record : RecordId}

/-! ## How a call begins -/

theorem fileOf_leads (s : Store) (table : TableId) :
    (fileOf table).Leads s (fun file after => after = s ∧ s.catalog.file table = .ok file)
      (fun after => after = s) :=
  Op.leads_ofExcept (fun _ listed => ⟨rfl, listed⟩) rfl

theorem checkRow_leads (s : Store) (file : HeapFile) (row : Row) :
    (checkRow file row).Leads s (fun _ after => after = s) (fun after => after = s) := by
  unfold checkRow
  split
  · exact Op.leads_pure _ rfl
  · exact Op.leads_fail _ rfl

/-- A record passes exactly if it is on a page of the file. -/
theorem checkRecord_cases (s : Store) (file : HeapFile) (record : RecordId) :
    ((record.page.table = file.table ∧ record.page.number < file.pageCount s.disk) ∧
        checkRecord file record s = .ok () s) ∨
      ¬ (record.page.table = file.table ∧ record.page.number < file.pageCount s.disk) ∧
        ∃ cause, checkRecord file record s = .error (.failed cause) s := by
  unfold checkRecord HeapFile.checkPage
  split
  · next own =>
    have counts : pageCount file s = .ok (file.pageCount s.disk) s := rfl
    rw [Op.bind_ok (rfl : Op.ofExcept (.ok ()) s = .ok () s), Op.bind_ok counts]
    split
    · next beyond => exact .inr ⟨fun both => Nat.not_lt_of_le beyond both.2, _, rfl⟩
    · next inside => exact .inl ⟨⟨own, Nat.lt_of_not_le inside⟩, rfl⟩
  · next foreign =>
    exact .inr ⟨fun both => foreign both.1, _, Op.bind_error rfl⟩

theorem checkRecord_leads (s : Store) (file : HeapFile) (record : RecordId) :
    (checkRecord file record).Leads s
      (fun _ after => after = s ∧ record.page.table = file.table)
      (fun after => after = s) := by
  unfold Op.Leads
  rcases checkRecord_cases s file record with ⟨⟨own, -⟩, passes⟩ | ⟨-, cause, fails⟩
  · rw [passes]
    exact ⟨rfl, own⟩
  · rw [fails]

/-- A call begins without touching the store, on a table of the catalog. -/
theorem Demand.start_leads (s : Store) (demand : Demand) :
    demand.start.Leads s
      (fun call after => after = s ∧ (s.catalog.Sound → call.Registered s.catalog))
      (fun after => after = s) := by
  have own {table : TableId} {file : HeapFile} (listed : s.catalog.file table = .ok file)
      (sound : s.catalog.Sound) : s.catalog.file file.table = .ok file := by
    rw [(sound table file listed).1, listed]
  cases demand with
  | fetch page mode => exact ⟨rfl, fun _ => trivial⟩
  | insert table row =>
    refine (fileOf_leads s table).bind fun file found ⟨same, listed⟩ => ?_
    rw [same]
    refine (checkRow_leads s file row).bind ?_
    intro _ checked same
    rw [same]
    exact ⟨rfl, own listed⟩
  | delete row =>
    rcases row with ⟨fields, held⟩
    cases held with
    | none => exact Op.leads_fail _ rfl
    | some record =>
      refine (fileOf_leads s record.page.table).bind fun file found ⟨same, listed⟩ => ?_
      rw [same]
      refine (checkRecord_leads s file record).bind fun _ checked ⟨same, _⟩ => ?_
      rw [same]
      exact ⟨rfl, fun _ => listed⟩
  | scan table mode =>
    refine (fileOf_leads s table).bind fun file found ⟨same, listed⟩ => ?_
    rw [same]
    exact ⟨rfl, own listed⟩

theorem Demand.start_final (s : Store) (demand : Demand) : Op.final (demand.start s) = s :=
  ((demand.start_leads s).mono (fun _ _ => And.left) fun _ => id).final

/-! ## How a call goes on -/

/-- A scan comes by the rows of a page by fetching it. -/
theorem Call.readPage_eq (file : HeapFile) (txn : TxnId) (mode : LockMode) (number : Nat) :
    readPage file txn mode number = (do
      let frame ← Store.fetch txn ⟨file.table, number⟩ mode
      Op.ofExcept (frame.page.rows file.schema)) := by
  funext s
  unfold readPage
  rw [Turn.turnPages_succ]
  cases fetched : Store.fetch txn ⟨file.table, number⟩ mode s with
  | error stop after => rw [Op.bind_error fetched]
  | ok frame after =>
    rw [Op.bind_ok fetched]
    cases rows : frame.page.rows file.schema with
    | error e =>
      simp only [rows]
      rfl
    | ok found =>
      cases found <;> simp only [rows] <;> rfl

theorem Call.readPage_leads (s : Store) (file : HeapFile) (txn : TxnId) (mode : LockMode)
    (number : Nat) :
    (readPage file txn mode number).Leads s (fun _ => Readies txn s) (Readies txn s) := by
  rw [readPage_eq]
  refine ((fetch_leads s txn ⟨file.table, number⟩ mode).mono (fun _ _ fetched => Readies.fetches fetched.1)
    fun _ fetches => Readies.fetches fetches).bind ?_
  intro frame _ readies
  exact Op.leads_ofExcept (fun _ _ => readies) readies

/-- A call that goes on readies pages, and if it ends with a change, makes it on one of them. -/
theorem Call.advance_leads (coherent : Coherent s) (txn : TxnId) (call : Call)
    (registered : call.Registered s.catalog) :
    (call.advance txn).Leads s
      (fun ends after =>
        match ends with
        | .inl answer =>
          match answer.change? with
          | some change => Alters txn change.record change.row s after
          | none => Readies txn s after
        | .inr _ => Readies txn s after)
      (Readies txn s) := by
  cases call with
  | fetch page mode =>
    refine ((fetch_leads s txn page mode).mono (fun _ _ fetched => Readies.fetches fetched.1)
      fun _ fetches => Readies.fetches fetches).bind ?_
    intro frame _ readies
    exact Op.leads_pure _ readies
  | insert file row numbers =>
    cases numbers with
    | nil =>
      refine (storeInFresh_leads coherent registered txn row).bind
        fun stored placed ⟨alters, kept⟩ => ?_
      exact (Op.leads_of_ok kept alters).bind fun _ _ alters => Op.leads_pure _ alters
    | cons number numbers =>
      refine (storeInPage_leads coherent registered txn row number).bind ?_
      intro stored placed holds
      cases stored with
      | none => exact Op.leads_pure _ holds
      | some stored =>
        rcases holds with ⟨alters, kept⟩
        exact (Op.leads_of_ok kept alters).bind fun _ _ alters => Op.leads_pure _ alters
  | delete file record =>
    refine (freeInPage_leads coherent registered txn).bind fun ref freed ⟨alters, kept⟩ => ?_
    exact (Op.leads_of_ok kept alters).bind fun _ _ alters => Op.leads_pure _ alters
  | scan file mode number found =>
    have counts : (pageCount file).Leads s (fun _ after => after = s) (Readies txn s) := rfl
    refine counts.bind ?_
    intro count counted same
    rw [same]
    split
    · refine (readPage_leads s file txn mode number).bind ?_
      intro rows after readies
      exact Op.leads_pure _ readies
    · exact Op.leads_pure _ (.refl txn s)

/-- A store whose files and locks are as readying pages leaves them. -/
def ReadiesFiles (txn : TxnId) (s after : Store) : Prop :=
  ∃ readied, Readies txn s readied ∧ after.catalog = readied.catalog ∧
    after.disk = readied.disk ∧ after.locks = readied.locks

/-- Whatever a call does to files and locks it does by readying pages. -/
theorem Call.advance_readies (coherent : Coherent s) (txn : TxnId) (call : Call)
    (registered : call.Registered s.catalog) :
    ReadiesFiles txn s (Op.final (call.advance txn s)) := by
  have leads : (call.advance txn).Leads s (fun _ => ReadiesFiles txn s) (ReadiesFiles txn s) := by
    refine (call.advance_leads coherent txn registered).mono (fun ends after left => ?_)
      fun after readies => ⟨after, readies, rfl, rfl, rfl⟩
    split at left
    · split at left
      · obtain ⟨readied, readies, rewrites⟩ := left
        cases rewrites
        exact ⟨readied, readies, rfl, rfl, rfl⟩
      · exact ⟨after, left, rfl, rfl, rfl⟩
    · exact ⟨after, left, rfl, rfl, rfl⟩
  exact leads.final

/-- How a call comes past a page: with an answer, or with a call to go on with. -/
inductive Call.Passes (txn : TxnId) (s : Store) : Call → Answer ⊕ Call → Store → Prop
  | fetched {page : PageId} {mode : LockMode} {frame : Frame} {after : Store}
      (fetched : Store.fetch txn page mode s = .ok frame after) :
      Passes txn s (.fetch page mode) (.inl (.fetched frame)) after
  | appended {file : HeapFile} {row : Row} {ref : PageRef} {record : RecordId}
      {stored after : Store} (stores : storeInFresh file txn row s = .ok (ref, record) stored)
      (handed : applyRef ref stored = .ok () after) :
      Passes txn s (.insert file row []) (.inl (.inserted record row)) after
  | inserted {file : HeapFile} {row : Row} {number : Nat} {numbers : List Nat} {ref : PageRef}
      {record : RecordId} {stored after : Store}
      (stores : storeInPage file txn row number s = .ok (some (ref, record)) stored)
      (handed : applyRef ref stored = .ok () after) :
      Passes txn s (.insert file row (number :: numbers)) (.inl (.inserted record row)) after
  /-- There was no free slot on the page. -/
  | full {file : HeapFile} {row : Row} {number : Nat} {numbers : List Nat} {after : Store}
      (tried : storeInPage file txn row number s = .ok none after) :
      Passes txn s (.insert file row (number :: numbers)) (.inr (.insert file row numbers)) after
  | deleted {file : HeapFile} {record : RecordId} {ref : PageRef} {freed after : Store}
      (frees : freeInPage file txn record s = .ok ref freed)
      (handed : applyRef ref freed = .ok () after) :
      Passes txn s (.delete file record) (.inl (.deleted record)) after
  | read {file : HeapFile} {mode : LockMode} {number : Nat} {found rows : List Row}
      {after : Store} (inside : number < file.pageCount s.disk)
      (reads : readPage file txn mode number s = .ok rows after) :
      Passes txn s (.scan file mode number found)
        (.inr (.scan file mode (number + 1) (found ++ rows))) after
  /-- There was no page left. -/
  | scanned {file : HeapFile} {mode : LockMode} {number : Nat} {found : List Row}
      (beyond : ¬ number < file.pageCount s.disk) :
      Passes txn s (.scan file mode number found) (.inl (.scanned found)) s

theorem Call.passes_of_advance {call : Call} {ends : Answer ⊕ Call}
    (advances : call.advance txn s = .ok ends after) : Passes txn s call ends after := by
  cases call with
  | fetch page mode =>
    obtain ⟨frame, _, fetched, rest⟩ := Op.bind_eq_ok.1 advances
    cases rest
    exact .fetched fetched
  | insert file row numbers =>
    cases numbers with
    | nil =>
      obtain ⟨⟨ref, record⟩, stored, stores, rest⟩ := Op.bind_eq_ok.1 advances
      obtain ⟨_, _, handed, rest⟩ := Op.bind_eq_ok.1 rest
      cases rest
      exact .appended stores handed
    | cons number numbers =>
      obtain ⟨placed, stored, stores, rest⟩ := Op.bind_eq_ok.1 advances
      cases placed with
      | none =>
        cases rest
        exact .full stores
      | some placed =>
        obtain ⟨_, _, handed, rest⟩ := Op.bind_eq_ok.1 rest
        cases rest
        exact .inserted stores handed
  | delete file record =>
    obtain ⟨ref, freed, frees, rest⟩ := Op.bind_eq_ok.1 advances
    obtain ⟨_, _, handed, rest⟩ := Op.bind_eq_ok.1 rest
    cases rest
    exact .deleted frees handed
  | scan file mode number found =>
    obtain ⟨count, _, counts, rest⟩ := Op.bind_eq_ok.1 advances
    cases counts
    split at rest
    · next inside =>
      obtain ⟨rows, _, reads, rest⟩ := Op.bind_eq_ok.1 rest
      cases rest
      exact .read inside reads
    · next beyond =>
      cases rest
      exact .scanned beyond

/-- A call that goes on does so with the same table. -/
theorem Call.advance_registered {catalog : Catalog} {call next : Call}
    (registered : call.Registered catalog)
    (goesOn : call.advance txn s = .ok (.inr next) after) : next.Registered catalog := by
  cases passes_of_advance goesOn with
  | full tried => exact registered
  | read inside reads => exact registered

/-! ## Calls that nobody halts -/

/-- The result of a call that is taken through all its pages while nobody else acts. -/
inductive Call.Ends (txn : TxnId) : Call → Store → EStateM.Result Stop Store Answer → Prop
  | answers {call : Call} {answer : Answer} {s after : Store}
      (advances : call.advance txn s = .ok (.inl answer) after) : Ends txn call s (.ok answer after)
  | goesOn {call next : Call} {s halted : Store} {result : EStateM.Result Stop Store Answer}
      (advances : call.advance txn s = .ok (.inr next) halted) (rest : Ends txn next halted result) :
      Ends txn call s result
  | stops {call : Call} {stop : Stop} {s after : Store}
      (advances : call.advance txn s = .error stop after) : Ends txn call s (.error stop after)

/-- A result without its value. -/
def Op.outcome {α : Type} : EStateM.Result Stop Store α → EStateM.Result Stop Store Unit
  | .ok _ s => .ok () s
  | .error stop s => .error stop s

/-- A call that comes to its change ends once the changed page is handed back. -/
theorem Call.ends_of_handBack {call : Call} {ref : PageRef} {answer : Answer}
    (changes : call.advance txn s =
      (do applyRef ref; return .inl answer : Op (Answer ⊕ Call)) after) :
    ∃ result, Ends txn call s result ∧ applyRefs [ref] after = Op.outcome result := by
  cases applied : applyRef ref after with
  | error stop later =>
    rw [Op.bind_error applied] at changes
    exact ⟨_, .stops changes, Op.bind_error applied⟩
  | ok _ later =>
    rw [Op.bind_ok applied] at changes
    exact ⟨_, .answers changes, Op.bind_ok applied⟩

theorem storeFrom_cons (file : HeapFile) (txn : TxnId) (row : Row) (number : Nat)
    (numbers : List Nat) (s : Store) :
    storeFrom file txn row (number :: numbers) s =
      match storeInPage file txn row number s with
      | .ok none after => storeFrom file txn row numbers after
      | .ok (some placed) after => .ok placed after
      | .error stop after => .error stop after := by
  unfold storeFrom
  cases stored : storeInPage file txn row number s with
  | error stop after => exact Op.bind_error (Op.bind_error stored)
  | ok placed after =>
    cases placed with
    | some placed =>
      have ends : storeInPages file txn row (number :: numbers) s = .ok (some placed) after :=
        Op.bind_ok stored
      exact Op.bind_ok ends
    | none =>
      have goesOn : storeInPages file txn row (number :: numbers) s =
          storeInPages file txn row numbers after := Op.bind_ok stored
      show EStateM.bind _ _ s = EStateM.bind _ _ after
      rw [EStateM.bind, EStateM.bind, goesOn]

/-- An insertion tries its pages in turn. -/
theorem Call.insert_ends (txn : TxnId) (file : HeapFile) (row : Row) (numbers : List Nat)
    (s : Store) :
    ∃ result, Ends txn (.insert file row numbers) s result ∧
      (do
        let (ref, _) ← storeFrom file txn row numbers
        applyRefs [ref] : Op Unit) s = Op.outcome result := by
  induction numbers generalizing s with
  | nil =>
    cases stored : storeInFresh file txn row s with
    | error stop after => exact ⟨_, .stops (Op.bind_error stored), Op.bind_error stored⟩
    | ok placed after =>
      rw [Op.bind_ok (show storeFrom file txn row [] s = _ from stored)]
      exact ends_of_handBack (Op.bind_ok stored)
  | cons number numbers ih =>
    have tries := storeFrom_cons file txn row number numbers s
    cases stored : storeInPage file txn row number s with
    | error stop after =>
      rw [stored] at tries
      exact ⟨_, .stops (Op.bind_error stored), Op.bind_error tries⟩
    | ok placed after =>
      rw [stored] at tries
      cases placed with
      | some placed =>
        rw [Op.bind_ok tries]
        exact ends_of_handBack (Op.bind_ok stored)
      | none =>
        obtain ⟨result, ends, same⟩ := ih after
        refine ⟨result, .goesOn (Op.bind_ok stored) ends, ?_⟩
        rw [← same]
        show EStateM.bind _ _ s = EStateM.bind _ _ after
        rw [EStateM.bind, EStateM.bind, tries]

/-- An insertion that nobody halts is the store's. -/
theorem insert_eq_ends (txn : TxnId) (table : TableId) (row : Row) (s : Store) :
    match (Demand.insert table row).start s with
    | .ok call begun =>
      ∃ result, call.Ends txn begun result ∧ Store.insert txn table row s = Op.outcome result
    | .error stop after => Store.insert txn table row s = .error stop after := by
  cases found : fileOf table s with
  | error stop after =>
    have starts : (Demand.insert table row).start s = .error stop after := Op.bind_error found
    rw [starts]
    exact Op.bind_error found
  | ok file after =>
    have begins : Store.insert txn table row s =
        (insertInto file txn row >>= applyRefs) after := Op.bind_ok found
    cases checked : checkRow file row after with
    | error stop later =>
      have starts : (Demand.insert table row).start s = .error stop later :=
        (Op.bind_ok found).trans (Op.bind_error checked)
      rw [starts, begins]
      exact Op.bind_error (Op.bind_error checked)
    | ok _ later =>
      have starts : (Demand.insert table row).start s =
          .ok (.insert file row (List.range (file.pageCount later.disk))) later :=
        (Op.bind_ok found).trans (Op.bind_ok checked)
      obtain ⟨result, ends, same⟩ := Call.insert_ends txn file row
        (List.range (file.pageCount later.disk)) later
      have changes : insertInto file txn row after =
          (do
            let (ref, _) ← storeFrom file txn row (List.range (file.pageCount later.disk))
            return [ref]) later := Op.bind_ok checked
      rw [starts, begins]
      refine ⟨result, ends, ?_⟩
      rw [← same]
      cases stored : storeFrom file txn row (List.range (file.pageCount later.disk)) later with
      | error stop last =>
        rw [Op.bind_error stored] at changes ⊢
        exact Op.bind_error changes
      | ok placed last =>
        rw [Op.bind_ok stored] at changes ⊢
        exact Op.bind_ok changes

/-- A deletion that nobody halts is the store's. -/
theorem delete_eq_ends (txn : TxnId) (row : Row) (s : Store) :
    match (Demand.delete row).start s with
    | .ok call begun =>
      ∃ result, call.Ends txn begun result ∧ Store.delete txn row s = Op.outcome result
    | .error stop after => Store.delete txn row s = .error stop after := by
  rcases row with ⟨fields, held⟩
  cases held with
  | none => rfl
  | some record =>
    cases found : fileOf record.page.table s with
    | error stop after =>
      have starts : (Demand.delete ⟨fields, some record⟩).start s = .error stop after :=
        Op.bind_error found
      rw [starts]
      exact Op.bind_error found
    | ok file after =>
      have begins : Store.delete txn ⟨fields, some record⟩ s =
          (deleteFrom file txn ⟨fields, some record⟩ >>= applyRefs) after := Op.bind_ok found
      cases checked : checkRecord file record after with
      | error stop later =>
        have starts : (Demand.delete ⟨fields, some record⟩).start s = .error stop later :=
          (Op.bind_ok found).trans (Op.bind_error checked)
        rw [starts, begins]
        exact Op.bind_error (Op.bind_error checked)
      | ok _ later =>
        have starts : (Demand.delete ⟨fields, some record⟩).start s =
            .ok (.delete file record) later := (Op.bind_ok found).trans (Op.bind_ok checked)
        have changes : deleteFrom file txn ⟨fields, some record⟩ after =
            (do return [← freeInPage file txn record]) later := Op.bind_ok checked
        rw [starts, begins]
        cases freed : freeInPage file txn record later with
        | error stop last =>
          rw [Op.bind_error freed] at changes
          exact ⟨_, .stops (Op.bind_error freed), Op.bind_error changes⟩
        | ok ref last =>
          rw [Op.bind_ok freed] at changes
          rw [Op.bind_ok changes]
          exact Call.ends_of_handBack (Op.bind_ok freed)

end PageStore
