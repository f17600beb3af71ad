import PageStore.Proofs.Schedule.Slotted.Inserts
import PageStore.Proofs.Schedule.Unrelated

/-!
# Working alone on a table

Whatever a transaction does that is alone at a table, it answers and leaves the table as a table of
slots does (`Sole.insert`, `Sole.delete`, `Sole.scan`), as long as the cache has room for the pages
that the table has then.  So a sequence of accesses is a run of a table of slots, whatever was done
before it and by whom (`System.accesses_run_slots`).
-/

namespace PageStore

namespace Store

/-- Deletes a row from a file, and hands back the page that was changed. -/
def deleteIn (file : HeapFile) (txn : TxnId) (row : Row) : Op Unit := do
  applyRefs (← deleteFrom file txn row)

end Store

/-- A store deletes a row from the file of the row's table. -/
theorem Store.delete_eq_deleteIn {s : Store} {file : HeapFile} {row : Row} {record : RecordId}
    (held : row.record = some record) (listed : s.catalog.file record.page.table = .ok file)
    (txn : TxnId) : delete txn row s = deleteIn file txn row s :=
  delete_eq_deleteFrom held listed

namespace Access

/-- What a transaction does to a table on a store. -/
def perform (txn : TxnId) (file : HeapFile) : Access → Op (List Row)
  | insert row => do
    Store.insert txn file.table row
    return []
  | delete row => do
    Store.deleteIn file txn row
    return []
  | scan mode => Store.scanAll txn file.table mode

/-- What a transaction is answered that does one thing after another, whether or not it succeeds,
and the store after that. -/
def performAll (txn : TxnId) (file : HeapFile) :
    List Access → Store → List (Except Stop (List Row)) × Store
  | [], s => ([], s)
  | access :: accesses, s =>
    let result := access.perform txn file s
    let (answers, last) := performAll txn file accesses (Op.final result)
    (Op.answer result :: answers, last)

end Access

namespace Store

variable {s after : Store} {txn : TxnId} {file : HeapFile} {frame : Frame} {number : Nat}
  {row : Row} {record : RecordId} {mode : LockMode}

/-! ## One access -/

/-- An access of a transaction that is alone at a table does what it does to a table of slots, and
leaves the transaction alone. -/
structure Does (txn : TxnId) (file : HeapFile) (access : Access) (s : Store) : Prop where
  sole : Sole txn file (Op.final (access.perform txn file s))
  capacity : (Op.final (access.perform txn file s)).capacity = s.capacity
  step : (s.slotTable file).Step file access (Op.answer (access.perform txn file s))
    ((Op.final (access.perform txn file s)).slotTable file)

theorem does_of_ok {access : Access} {rows : List Row}
    (ok : access.perform txn file s = .ok rows after) (sole : Sole txn file after)
    (capacity : after.capacity = s.capacity)
    (step : (s.slotTable file).Step file access (.ok rows) (after.slotTable file)) :
    Does txn file access s := by
  constructor <;> rw [ok] <;> assumption

theorem does_of_error {access : Access} {stop : Stop}
    (error : access.perform txn file s = .error stop after) (sole : Sole txn file after)
    (capacity : after.capacity = s.capacity)
    (step : (s.slotTable file).Step file access (.error stop) (after.slotTable file)) :
    Does txn file access s := by
  constructor <;> rw [error] <;> assumption

/-- An insertion does what it does to a table of slots, unless there is no room for the pages. -/
theorem Sole.insert_cases (sole : Sole txn file s) (row : Row) :
    Does txn file (.insert row) s ∨
      ∃ after, Store.insert txn file.table row s =
        .error (.failed (.cacheExhausted s.capacity)) after ∧ Crowded file s after := by
  cases fits : row.fits file.schema with
  | false =>
    exact .inl (does_of_error (Op.bind_error (insert_refused sole.listed fits)) sole rfl
      (.misfits fits))
  | true =>
    have inserts : Store.insert txn file.table row s =
        (Store.storeFrom file txn row (List.range (file.pageCount s.disk)) >>= fun stored =>
          applyRefs [stored.1]) s := insert_eq sole.listed fits
    rw [List.range_eq_range'] at inserts
    have before : s.FullBefore file 0 := fun _ _ below => absurd below (Nat.not_lt_zero _)
    rcases sole.storeFrom fits (Nat.zero_add _) before with
      ⟨stored, after, stores, places⟩ | ⟨after, fails, crowded⟩
    · have handed : applyRefs [stored.1] after = .ok () after := Op.bind_ok places.handed
      exact .inl (does_of_ok (Op.bind_ok (inserts.trans ((Op.bind_ok stores).trans handed)))
        places.sole places.capacity places.step)
    · exact .inr ⟨after, inserts.trans (Op.bind_error fails), crowded⟩

theorem Sole.insert (sole : Sole txn file s) (row : Row)
    (room : file.pageCount (Op.final (Access.perform txn file (.insert row) s)).disk ≤
      s.capacity) : Does txn file (.insert row) s := by
  refine (sole.insert_cases row).resolve_right fun ⟨after, fails, crowded⟩ => ?_
  have ends : Op.final (Access.perform txn file (.insert row) s) = after :=
    congrArg Op.final (Op.bind_error fails)
  exact absurd (ends ▸ room) (Nat.not_le_of_lt crowded.lacking)

/-- A used slot of a page that a transaction holds exclusively is freed, and a free one is not. -/
theorem Turned.freeRecord (turned : Turned txn file .exclusive number s frame after) (slot : Nat) :
    (frame.page.isUsed file.schema slot = true ∧
      ∃ later, freeRecord file txn frame ⟨⟨file.table, number⟩, slot⟩ after = .ok () later ∧
        Rewrites txn ⟨⟨file.table, number⟩, slot⟩ none after later ∧
        applyRef frame.ref later = .ok () later) ∨
    frame.page.isUsed file.schema slot = false ∧
      ∃ cause, freeRecord file txn frame ⟨⟨file.table, number⟩, slot⟩ after =
        .error (.failed cause) after := by
  have leads := freeRecord_leads turned.sole.listed turned.opened ⟨⟨file.table, number⟩, slot⟩
  cases used : frame.page.isUsed file.schema slot with
  | true =>
    have frees : Store.freeRecord file txn frame ⟨⟨file.table, number⟩, slot⟩ after =
        .ok () (after.setFrame { frame with
          page := Page.dirtiedBy { frame.page with bytes := Page.clearBit frame.page.bytes slot }
            txn }) := by
      simp [Store.freeRecord, Page.delete, used, turned.id]
    exact .inl ⟨rfl, _, frees, leads.of_ok frees⟩
  | false =>
    have fails : Store.freeRecord file txn frame ⟨⟨file.table, number⟩, slot⟩ after =
        .error (.failed (.slotEmpty slot frame.page.id)) after := by
      simp [Store.freeRecord, Page.delete, used, turned.id]
    exact .inr ⟨rfl, _, fails⟩

/-- The record of a page of the table is freed exactly if it names a used slot. -/
theorem Sole.freeInPage (sole : Sole txn file s) (within : file.pageCount s.disk ≤ s.capacity)
    (inside : number < file.pageCount s.disk) (slot : Nat) :
    let record : RecordId := ⟨⟨file.table, number⟩, slot⟩
    (∃ ref after, freeInPage file txn record s = .ok ref after ∧ applyRef ref after = .ok () after ∧
      Sole txn file after ∧ after.capacity = s.capacity ∧
      (s.slotTable file).Slot file record ∧ (s.slotTable file).IsUsed record ∧
      after.slotTable file = (s.slotTable file).change ⟨record, none⟩) ∨
    ∃ cause after, freeInPage file txn record s = .error (.failed cause) after ∧
      Sole txn file after ∧ after.capacity = s.capacity ∧ after.slotTable file = s.slotTable file ∧
      ¬ (s.slotTable file).IsUsed record := by
  intro record
  obtain ⟨frame, fetched, fetches⟩ := sole.exists_fetch within inside .exclusive
  have turned := sole.fetched fetches
  have goesOn : Store.freeInPage file txn record s =
      (do Store.freeRecord file txn frame record; return frame.ref : Op _) fetched :=
    Op.bind_ok fetches
  rcases turned.freeRecord slot with
    ⟨used, after, frees, rewrites, handed⟩ | ⟨unused, cause, fails⟩
  · obtain ⟨sole', capacity, table⟩ := turned.sole.rewrites rewrites rfl
    refine .inl ⟨frame.ref, after, goesOn.trans (Op.bind_ok frees), handed, sole',
      capacity.trans turned.capacity, ⟨rfl, inside, ?_⟩, turned.isUsed sole used, ?_⟩
    · exact turned.slots ▸ Page.lt_slots_of_isUsed used
    · rw [table, turned.same]
  · refine .inr ⟨cause, fetched, goesOn.trans (Op.bind_error fails), turned.sole, turned.capacity,
      turned.same, ?_⟩
    rintro ⟨row, held⟩
    have free := turned.free unused
    rw [show s.shownAt record = .ok (some row) from held] at free
    cases free

theorem Sole.delete (sole : Sole txn file s) (within : file.pageCount s.disk ≤ s.capacity)
    (row : Row) : Does txn file (.delete row) s := by
  cases named : row.record with
  | none =>
    have fails : deleteIn file txn row s = .error (.failed (.noRecord row)) s := by
      unfold deleteIn deleteFrom
      rw [named]
      rfl
    refine does_of_error (Op.bind_error fails) sole rfl (.refuses fun record held => ?_)
    rw [named] at held
    cases held
  | some record =>
    have refuses {cause : Error} (absent : (s.slotTable file).Slot file record →
        ¬ (s.slotTable file).IsUsed record) :
        (s.slotTable file).Step file (.delete row) (.error (.failed cause)) (s.slotTable file) := by
      refine .refuses fun other held => ?_
      rw [named] at held
      cases held
      exact absent
    have deletes : (deleteFrom file txn row >>= applyRefs) s =
        (checkRecord file record >>= fun _ => Store.freeInPage file txn record >>= fun ref =>
          applyRefs [ref]) s := deleteFrom_eq named s
    rcases checkRecord_cases s file record with ⟨⟨own, inside⟩, passes⟩ | ⟨outside, cause, fails⟩
    · obtain ⟨⟨table, number⟩, slot⟩ := record
      obtain rfl : table = file.table := own
      have goesOn := deletes.trans (Op.bind_ok passes)
      rcases sole.freeInPage within inside slot with
        ⟨ref, after, frees, handed, sole', capacity, here, used, same⟩ |
        ⟨cause, after, fails, sole', capacity, same, unused⟩
      · have handed : applyRefs [ref] after = .ok () after := Op.bind_ok handed
        refine does_of_ok (Op.bind_ok (goesOn.trans ((Op.bind_ok frees).trans handed))) sole'
          capacity ?_
        rw [same]
        exact .deletes named here used
      · refine does_of_error (Op.bind_error (goesOn.trans (Op.bind_error fails))) sole' capacity ?_
        rw [same]
        exact refuses fun _ => unused
    · exact does_of_error (Op.bind_error (deletes.trans (Op.bind_error fails))) sole rfl
        (refuses fun here => absurd ⟨here.own, here.page⟩ outside)

/-- While a transaction is alone at a table, each page shows what it showed. -/
theorem gives_shown (s : Store) (txn : TxnId) (file : HeapFile) (mode : LockMode) :
    Gives (fun after => Sole txn file after ∧ after.capacity = s.capacity ∧
      after.slotTable file = s.slotTable file) txn mode file s.shownAt := by
  rintro now number frame after ⟨sole, capacity, same⟩ fetches
  have turned := sole.fetched fetches
  refine ⟨⟨turned.sole, turned.capacity.trans capacity, turned.same.trans same⟩, turned.id,
    fun slot => ?_⟩
  rw [turned.id, turned.shows, show now.shownAt = s.shownAt from congrArg SlotTable.contents same]

/-- Pages of the table can be read, one after another. -/
theorem Sole.exists_readPages (sole : Sole txn file s)
    (within : file.pageCount s.disk ≤ s.capacity) (mode : LockMode) {pages : Nat}
    (inside : number + pages ≤ file.pageCount s.disk) :
    ∃ rows after, readPages file txn mode pages number s = .ok rows after := by
  induction pages generalizing s number with
  | zero => exact ⟨[], s, rfl⟩
  | succ pages ih =>
    obtain ⟨frame, fetched, fetches⟩ := sole.exists_fetch within
      (Nat.lt_of_lt_of_le (Nat.lt_add_of_pos_right (Nat.succ_pos pages)) inside) mode
    have turned := sole.fetched fetches
    have count : file.pageCount fetched.disk = file.pageCount s.disk :=
      congrArg SlotTable.pages turned.same
    obtain ⟨rows, ok⟩ := Page.exists_rows fun slot => by
      rw [turned.shows]
      exact sole.legible.shown _
    have rest : number + 1 + pages ≤ file.pageCount fetched.disk := by omega
    obtain ⟨more, after, reads⟩ := ih turned.sole (count ▸ turned.capacity ▸ within) rest
    refine ⟨rows ++ more, after, (Op.bind_ok fetches).trans ?_⟩
    rw [ok]
    exact (Op.bind_ok rfl).trans (Op.bind_ok reads)

/-- A record that holds a row, on a page of the table, names a slot of it. -/
theorem Sole.slot_of_isUsed (sole : Sole txn file s) (within : file.pageCount s.disk ≤ s.capacity)
    (own : record.page.table = file.table) (inside : record.page.number < file.pageCount s.disk)
    (used : (s.slotTable file).IsUsed record) : (s.slotTable file).Slot file record := by
  obtain ⟨⟨table, number⟩, slot⟩ := record
  obtain rfl : table = file.table := own
  obtain ⟨frame, fetched, fetches⟩ := sole.exists_fetch within inside .shared
  have turned := sole.fetched fetches
  obtain ⟨row, held⟩ := used
  have full := (Page.row?_eq_some_iff.1 ((turned.shows slot).trans held)).1
  exact ⟨rfl, inside, turned.slots ▸ Page.lt_slots_of_isUsed full⟩

theorem Sole.scan (sole : Sole txn file s) (within : file.pageCount s.disk ≤ s.capacity)
    (mode : LockMode) : Does txn file (.scan mode) s := by
  have whole : 0 + file.pageCount s.disk ≤ file.pageCount s.disk :=
    Nat.le_of_eq (Nat.zero_add _)
  obtain ⟨rows, after, reads⟩ := sole.exists_readPages within mode whole
  have scans := (scanAll_of_listed sole.listed txn mode).trans reads
  obtain ⟨⟨sole', capacity, same⟩, lists⟩ :=
    readPages_lists (gives_shown s txn file mode) ⟨sole, rfl, rfl⟩ reads
  refine does_of_ok scans sole' capacity ?_
  rw [same]
  refine .lists (lists.congr fun record row held => ⟨fun ⟨own, _, inside⟩ => ?_, fun here =>
    ⟨here.own, Nat.zero_le _, (Nat.zero_add _).symm ▸ here.page⟩⟩)
  exact sole.slot_of_isUsed within own (Nat.zero_add (file.pageCount s.disk) ▸ inside) ⟨row, held⟩

/-! ## One access after another -/

theorem Follows.pageCount_le (follows : Follows s after) (file : HeapFile) :
    file.pageCount s.disk ≤ file.pageCount after.disk :=
  Nat.div_le_div_right (follows.builds.files file.path)

theorem perform_leads (grounded : s.Grounded) (coherent : s.Coherent)
    (listed : s.catalog.file file.table = .ok file) (txn : TxnId) (access : Access) :
    (access.perform txn file).Leads s (fun _ => Follows s) (Follows s) := by
  cases access with
  | insert row =>
    exact (insert_follows grounded coherent txn file.table row).bind fun _ _ follows =>
      Op.leads_pure _ follows
  | delete row =>
    have deletes : (deleteIn file txn row).Leads s (fun _ => Follows s) (Follows s) :=
      (deleteFrom_follows grounded coherent listed txn row).bind fun _ _ ⟨follows, handed⟩ =>
        Op.leads_of_ok handed follows
    exact deletes.bind fun _ _ follows => Op.leads_pure _ follows
  | scan mode => exact scanAll_follows grounded coherent txn file.table mode

theorem performAll_follows (grounded : s.Grounded) (coherent : s.Coherent)
    (listed : s.catalog.file file.table = .ok file) (txn : TxnId) (accesses : List Access) :
    Follows s (Access.performAll txn file accesses s).2 := by
  induction accesses generalizing s with
  | nil => exact ⟨.refl s, coherent⟩
  | cons access accesses ih =>
    have first := (perform_leads grounded coherent listed txn access).final
    exact first.trans (ih (grounded.builds first.builds) first.coherent
      (by rw [first.builds.catalog, listed]))

/-- An access does what it does to a table of slots, if there is room for the pages that there are
then. -/
theorem Sole.perform (sole : Sole txn file s) (access : Access)
    (room : file.pageCount (Op.final (access.perform txn file s)).disk ≤ s.capacity) :
    Does txn file access s := by
  have follows := (perform_leads sole.grounded sole.coherent sole.listed txn access).final
  have within := Nat.le_trans (follows.pageCount_le file) room
  cases access with
  | insert row => exact sole.insert row room
  | delete row => exact sole.delete within row
  | scan mode => exact sole.scan within mode

theorem Sole.performAll (sole : Sole txn file s) (accesses : List Access)
    (room : file.pageCount (Access.performAll txn file accesses s).2.disk ≤ s.capacity) :
    (s.slotTable file).Runs file accesses (Access.performAll txn file accesses s).1
      ((Access.performAll txn file accesses s).2.slotTable file) := by
  induction accesses generalizing s with
  | nil => exact .nil _
  | cons access accesses ih =>
    have follows := (perform_leads sole.grounded sole.coherent sole.listed txn access).final
    have rest := performAll_follows (sole.grounded.builds follows.builds) follows.coherent
      (by rw [follows.builds.catalog, sole.listed]) txn accesses
    have does := sole.perform access (Nat.le_trans (rest.pageCount_le file) room)
    exact .cons does.step (ih does.sole (does.capacity ▸ room))

end Store

open Store

namespace System

variable {start sys : System} {reports : List Report} {allowed : System → Action → Prop}
  {txn : TxnId} {file : HeapFile}

/-- A transaction that is alone at a table inserts and deletes rows and scans the table, with a cache
that has room for the pages of the table.  What it is answered, and what it makes of the table, is
what a table of slots answers and becomes: each row is stored in the first free slot, and in an
appended page only if there is none; a row is deleted exactly if its record names a used slot; and a
scan lists the used slots in their order. -/
theorem accesses_run_slots (fresh : start.Fresh) (legible : start.store.recordAt.Legible)
    (run : Run allowed start reports sys)
    (listed : sys.store.catalog.file file.table = .ok file)
    (alone : sys.store.Alone txn file.table) (accesses : List Access)
    (room : file.pageCount (Access.performAll txn file accesses sys.store).2.disk ≤
      sys.store.capacity) :
    (sys.store.slotTable file).Runs file accesses
      (Access.performAll txn file accesses sys.store).1
      ((Access.performAll txn file accesses sys.store).2.slotTable file) := by
  have rooted := run.rooted fresh
  exact Sole.performAll ⟨alone, (run.steady fresh).coherent, rooted.grounded, rooted.fits,
    run.legible fresh legible, listed⟩ accesses room

/-- The statement above for a row that goes to an appended page, and one that goes to the slot of a
row that was deleted before, once another transaction has committed that row. -/
theorem accesses_run_slots_with_reuse :
    let table := smallFile.table
    let old : Row := ⟨[.int 5], some ⟨⟨table, 0⟩, 0⟩⟩
    let sys := small.acts [.begin, .demand 0 (.insert table ⟨[.int 5], none⟩), .advance 0,
      .commit 0, .begin]
    let accesses : List Access := [.insert ⟨[.int 7], none⟩, .delete old, .delete old,
      .insert ⟨[.int 9], none⟩, .scan .shared]
    (Access.performAll 1 smallFile accesses sys.store).1 =
      [.ok [], .ok [], .error (.failed (.slotEmpty 0 ⟨table, 0⟩)), .ok [],
        .ok [⟨[.int 9], some ⟨⟨table, 0⟩, 0⟩⟩, ⟨[.int 7], some ⟨⟨table, 1⟩, 0⟩⟩]] ∧
    (sys.store.slotTable smallFile).Runs smallFile accesses
      (Access.performAll 1 smallFile accesses sys.store).1
      ((Access.performAll 1 smallFile accesses sys.store).2.slotTable smallFile) := by
  intro table old sys accesses
  have nobody : sys.store.locks.pages.entries = [] := by decide +kernel
  have clean : ∀ entry ∈ sys.store.cache.entries, entry.2.page.isDirty = false := by decide +kernel
  refine ⟨by decide +kernel, accesses_run_slots small_fresh
    (legible_of_empty (s := small.store) small_fresh.catalog fun _ => rfl)
    (run_acts small fun _ _ _ => trivial) (by decide +kernel) (alone_of_idle nobody clean) accesses
    (by decide +kernel)⟩

end System

end PageStore
