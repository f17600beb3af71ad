import PageStore.Proofs.Schedule.Undisturbed.Rows

/-!
# Insertions, deletions and scans of one's own tables

An undisturbed transaction that inserts a row, deletes one or scans a table does the same on stores
that agree in its tables (`Store.Ready.insert`, `Store.Ready.delete`, `Store.Ready.scanAll`).  Each is
followed page by page.  An insertion that appends a page needs room for it, so it is known beforehand
which pages there are once it is done.
-/

namespace PageStore.Store

variable {mine : TableId → Prop} {txn : TxnId} {space : PageId → Prop} {s t after later : Store}
  {file : HeapFile} {row : Row} {record : RecordId} {table : TableId} {mode : LockMode}

/-- A coherent store that was built on another. -/
structure Follows (s after : Store) : Prop where
  builds : Builds s after
  coherent : after.Coherent

theorem Follows.trans (first : Follows s after) (second : Follows after later) : Follows s later :=
  ⟨first.builds.trans second.builds, second.coherent⟩

/-! ## Inserting -/

theorem storeFrom_tries (file : HeapFile) (txn : TxnId) (row : Row) (number : Nat)
    (numbers : List Nat) :
    storeFrom file txn row (number :: numbers) =
      storeInPage file txn row number >>= fun placed =>
        placed.elim (storeFrom file txn row numbers) pure := by
  funext s
  rw [storeFrom_cons]
  cases stored : storeInPage file txn row number s with
  | error stop after => exact (Op.bind_error stored).symm
  | ok placed after =>
    rw [Op.bind_ok stored]
    cases placed <;> rfl

/-- A row is stored in a page that is cached. -/
theorem storeFrom_follows (grounded : s.Grounded) (coherent : s.Coherent)
    (listed : s.catalog.file file.table = .ok file) (txn : TxnId) (row : Row)
    (numbers : List Nat) :
    (storeFrom file txn row numbers).Leads s
      (fun stored after => Follows s after ∧ applyRef stored.1 after = .ok () after)
      (Follows s) := by
  induction numbers generalizing s with
  | nil =>
    exact ((storeInFresh_builds grounded listed txn row).and
      (storeInFresh_leads coherent listed txn row)).mono
        (fun _ _ ⟨builds, alters, handed⟩ => ⟨⟨builds, coherent.alters alters⟩, handed⟩)
        fun _ ⟨builds, readies⟩ => ⟨builds, coherent.readies readies⟩
  | cons number numbers ih =>
    rw [storeFrom_tries]
    refine (((storeInPage_builds grounded file txn row number).and
      (storeInPage_leads coherent listed txn row number)).mono (fun _ _ => id)
        fun _ ⟨builds, readies⟩ => ⟨builds, coherent.readies readies⟩).bind ?_
    rintro placed after ⟨builds, holds⟩
    cases placed with
    | none =>
      have begun : Follows s after := ⟨builds, coherent.readies holds⟩
      exact (ih (grounded.builds builds) begun.coherent (by rw [builds.catalog, listed])).mono
        (fun _ _ ⟨follows, handed⟩ => ⟨begun.trans follows, handed⟩) fun _ => begun.trans
    | some placed => exact ⟨⟨builds, coherent.alters holds.1⟩, holds.2⟩

theorem Ready.storeFrom (ready : Ready mine txn space s t) (own : mine file.table)
    (listed : s.catalog.file file.table = .ok file) (row : Row) (numbers : List Nat)
    (within : Within space (Op.final (storeFrom file txn row numbers s))) :
    Same mine txn space (storeFrom file txn row numbers) (storeFrom file txn row numbers) s t
      fun _ _ _ _ => True := by
  induction numbers generalizing s t with
  | nil => exact ready.storeInFresh own listed row within
  | cons number numbers ih =>
    rw [storeFrom_tries] at within ⊢
    refine Same.bind ready (ready.storeInPage own listed row number)
      fun placed placed' u v ok _ pair ready same => ?_
    rw [Op.bind_ok ok] at within
    cases placed with
    | none =>
      obtain rfl : placed' = none := Option.map_eq_none_iff.1 same
      exact ih ready (by rw [pair.first.builds.catalog, listed]) within
    | some placed =>
      obtain ⟨_, rfl, _⟩ := Option.map_eq_some_iff.1 same
      exact ready.same_pure trivial

theorem insertInto_follows (grounded : s.Grounded) (coherent : s.Coherent)
    (listed : s.catalog.file file.table = .ok file) (txn : TxnId) (row : Row) :
    (insertInto file txn row).Leads s
      (fun refs after => Follows s after ∧ applyRefs refs after = .ok () after) (Follows s) := by
  have still : Follows s s := ⟨.refl s, coherent⟩
  refine ((checkRow_leads s file row).stops still).bind ?_
  rintro _ checked rfl
  have counts : (pageCount file).Leads checked (fun _ after => after = checked) (Follows checked) :=
    rfl
  refine counts.bind ?_
  rintro count counted rfl
  exact (storeFrom_follows grounded coherent listed txn row _).bind
    fun stored after ⟨follows, handed⟩ => Op.leads_pure _ ⟨follows, Op.bind_ok handed⟩

theorem insert_follows (grounded : s.Grounded) (coherent : s.Coherent) (txn : TxnId)
    (table : TableId) (row : Row) :
    (insert txn table row).Leads s (fun _ => Follows s) (Follows s) := by
  refine ((fileOf_leads s table).stops ⟨.refl s, coherent⟩).bind ?_
  rintro file found ⟨rfl, listed⟩
  obtain rfl : file.table = table := (coherent.catalog _ _ listed).1
  exact (insertInto_follows grounded coherent listed txn row).bind
    fun refs after ⟨follows, handed⟩ => Op.leads_of_ok handed follows

theorem fileOf_listed (listed : s.catalog.file table = .ok file) :
    fileOf table s = .ok file s := by
  rw [fileOf, listed]
  rfl

theorem fileOf_missing {e : Error} (missing : s.catalog.file table = .error e) :
    fileOf table s = .error (.failed e) s := by
  rw [fileOf, missing]
  rfl

/-- An insertion into a table of the catalog. -/
theorem insert_eq (listed : s.catalog.file table = .ok file) (fits : row.fits file.schema = true) :
    insert txn table row s =
      (storeFrom file txn row (List.range (file.pageCount s.disk)) >>= fun stored =>
        applyRefs [stored.1]) s := by
  have checks : checkRow file row s = .ok () s := by
    rw [checkRow, if_pos fits]
    rfl
  have changes : insertInto file txn row s =
      (storeFrom file txn row (List.range (file.pageCount s.disk)) >>= fun stored =>
        pure [stored.1]) s := Op.bind_ok checks
  have begins : insert txn table row s = (insertInto file txn row >>= applyRefs) s :=
    Op.bind_ok (fileOf_listed listed)
  rw [begins]
  cases stored : storeFrom file txn row (List.range (file.pageCount s.disk)) s with
  | error stop after =>
    rw [Op.bind_error stored] at changes ⊢
    exact Op.bind_error changes
  | ok placed after =>
    rw [Op.bind_ok stored] at changes ⊢
    exact Op.bind_ok changes

/-- An insertion that is refused before any page is touched. -/
theorem insert_refused (listed : s.catalog.file table = .ok file)
    (misfit : row.fits file.schema = false) :
    insert txn table row s = .error (.failed (.rowMismatch row file.schema)) s := by
  have checks : checkRow file row s = .error (.failed (.rowMismatch row file.schema)) s := by
    rw [checkRow, if_neg (Bool.eq_false_iff.1 misfit)]
    rfl
  exact (Op.bind_ok (fileOf_listed listed)).trans (Op.bind_error (Op.bind_error checks))

/-- Inserting a row into an own table does the same on stores that agree there, if there is room for
the pages that there are afterwards. -/
theorem Ready.insert (ready : Ready mine txn space s t) (own : mine table) (row : Row)
    (within : Within space (Op.final (insert txn table row s))) :
    Same mine txn space (insert txn table row) (insert txn table row) s t fun _ _ _ _ => True := by
  cases listed : s.catalog.file table with
  | error e =>
    have listed' : t.catalog.file table = .error e := by rw [ready.agree.catalog, listed]
    exact same_of_error (Op.bind_error (fileOf_missing listed))
      (Op.bind_error (fileOf_missing listed')) ready.pair
  | ok file =>
    have listed' : t.catalog.file table = .ok file := by rw [ready.agree.catalog, listed]
    obtain rfl : file.table = table := (ready.first.coherent.catalog _ _ listed).1
    cases fits : row.fits file.schema with
    | false => exact same_of_error (insert_refused listed fits) (insert_refused listed' fits) ready.pair
    | true =>
      rw [insert_eq listed fits] at within
      have leads := storeFrom_follows ready.first.grounded ready.first.coherent listed txn row
        (List.range (file.pageCount s.disk))
      have leads' := storeFrom_follows ready.second.grounded ready.second.coherent listed' txn row
        (List.range (file.pageCount s.disk))
      have stores : Within space (Op.final
          (Store.storeFrom file txn row (List.range (file.pageCount s.disk)) s)) := by
        cases stored : Store.storeFrom file txn row (List.range (file.pageCount s.disk)) s with
        | error stop after => rwa [Op.bind_error stored] at within
        | ok placed after =>
          rw [Op.bind_ok stored] at within
          have handed : applyRefs [placed.1] after = .ok () after :=
            Op.bind_ok (leads.of_ok stored).2
          rwa [handed] at within
      refine Same.congr ?_ (insert_eq listed fits) (insert_eq listed' fits)
      rw [ready.agree.pageCount own listed]
      exact Same.bind ready ((ready.storeFrom own listed row _ stores).and_leads leads leads')
        fun placed placed' u v _ _ _ ready ⟨_, ⟨_, handed⟩, _, handed'⟩ =>
          same_of_ok (Op.bind_ok handed) (Op.bind_ok handed') ready.pair ready.first.within
            ready.second.within trivial

/-! ## Deleting -/

/-- Whether a record is on a page of an own table is the same in stores that agree there. -/
theorem Ready.checkRecord (ready : Ready mine txn space s t) (own : mine file.table)
    (listed : s.catalog.file file.table = .ok file) (record : RecordId) :
    Same mine txn space (checkRecord file record) (checkRecord file record) s t
      fun _ _ u v => u = s ∧ v = t := by
  refine Same.bind ready (ready.same_of_answer (file.checkPage record.page) rfl rfl) ?_
  rintro _ _ u v - - - - ⟨-, -, rfl, rfl⟩
  refine Same.bind ready (ready.same_of_answer (.ok (file.pageCount u.disk)) rfl (by
    rw [← ready.agree.pageCount own listed]
    rfl)) ?_
  rintro _ number u v - - - - ⟨-, rfl, rfl, rfl⟩
  split
  · exact ready.same_fail _
  · exact ready.same_pure ⟨rfl, rfl⟩

theorem deleteFrom_follows (grounded : s.Grounded) (coherent : s.Coherent)
    (listed : s.catalog.file file.table = .ok file) (txn : TxnId) (row : Row) :
    (deleteFrom file txn row).Leads s
      (fun refs after => Follows s after ∧ applyRefs refs after = .ok () after) (Follows s) := by
  have still : Follows s s := ⟨.refl s, coherent⟩
  unfold deleteFrom
  cases row.record with
  | none => exact Op.leads_fail _ still
  | some record =>
    refine ((checkRecord_leads s file record).stops still).bind ?_
    rintro _ checked ⟨rfl, own⟩
    refine (((freeInPage_builds grounded file txn record).and
      (freeInPage_leads coherent (own ▸ listed) txn)).mono (fun _ _ => id)
        fun _ ⟨builds, readies⟩ => ⟨builds, coherent.readies readies⟩).bind ?_
    rintro ref after ⟨builds, alters, handed⟩
    exact Op.leads_pure _ ⟨⟨builds, coherent.alters alters⟩, Op.bind_ok handed⟩

theorem delete_follows (grounded : s.Grounded) (coherent : s.Coherent) (txn : TxnId) (row : Row) :
    (delete txn row).Leads s (fun _ => Follows s) (Follows s) := by
  have still : Follows s s := ⟨.refl s, coherent⟩
  unfold delete
  cases held : row.record with
  | none => exact Op.leads_fail _ still
  | some record =>
    refine ((fileOf_leads s record.page.table).stops still).bind ?_
    rintro file found ⟨rfl, listed⟩
    have here : file.table = record.page.table := (coherent.catalog _ _ listed).1
    exact (deleteFrom_follows grounded coherent (here ▸ listed) txn row).bind
      fun refs after ⟨follows, handed⟩ => Op.leads_of_ok handed follows

/-- A deletion from a file, with the page that was changed handed back. -/
theorem deleteFrom_eq (held : row.record = some record) (s : Store) :
    (deleteFrom file txn row >>= applyRefs) s =
      (checkRecord file record >>= fun _ => freeInPage file txn record >>= fun ref =>
        applyRefs [ref]) s := by
  rw [deleteFrom, held]
  cases checked : Store.checkRecord file record s with
  | error stop after =>
    rw [Op.bind_error checked]
    exact Op.bind_error (Op.bind_error checked)
  | ok _ after =>
    rw [Op.bind_ok checked]
    cases freed : Store.freeInPage file txn record after with
    | error stop later =>
      rw [Op.bind_error freed]
      exact Op.bind_error ((Op.bind_ok checked).trans (Op.bind_error freed))
    | ok ref later =>
      rw [Op.bind_ok freed]
      exact Op.bind_ok ((Op.bind_ok checked).trans (Op.bind_ok freed))

/-- A deletion is one from the file of the record's table. -/
theorem delete_eq_deleteFrom (held : row.record = some record)
    (listed : s.catalog.file record.page.table = .ok file) :
    delete txn row s = (deleteFrom file txn row >>= applyRefs) s := by
  unfold delete
  rw [held]
  exact Op.bind_ok (fileOf_listed listed)

/-- Deleting a row from an own table does the same on stores that agree there. -/
theorem Ready.delete (ready : Ready mine txn space s t) (row : Row)
    (own : ∀ record, row.record = some record → mine record.page.table) :
    Same mine txn space (delete txn row) (delete txn row) s t fun _ _ _ _ => True := by
  cases held : row.record with
  | none =>
    have fails (store : Store) : Store.delete txn row store = .error (.failed (.noRecord row)) store := by
      unfold Store.delete
      rw [held]
      rfl
    exact same_of_error (fails s) (fails t) ready.pair
  | some record =>
    have own := own record held
    cases listed : s.catalog.file record.page.table with
    | error e =>
      have fails {store : Store} (missing : store.catalog.file record.page.table = .error e) :
          Store.delete txn row store = .error (.failed e) store := by
        unfold Store.delete
        rw [held]
        exact Op.bind_error (fileOf_missing missing)
      exact same_of_error (fails listed) (fails (by rw [ready.agree.catalog, listed])) ready.pair
    | ok file =>
      have listed' : t.catalog.file record.page.table = .ok file := by
        rw [ready.agree.catalog, listed]
      have here : file.table = record.page.table := (ready.first.coherent.catalog _ _ listed).1
      refine Same.congr ?_ ((delete_eq_deleteFrom held listed).trans (deleteFrom_eq held s))
        ((delete_eq_deleteFrom held listed').trans (deleteFrom_eq held t))
      refine Same.bind ready (ready.checkRecord (here ▸ own) (here ▸ listed) record) ?_
      rintro _ _ _ _ - - - - ⟨rfl, rfl⟩
      have frees := (ready.freeInPage own listed).and_leads
        (freeInPage_leads ready.first.coherent listed txn)
        (freeInPage_leads ready.second.coherent listed' txn)
      exact Same.bind ready frees fun ref ref' u v _ _ _ ready ⟨_, ⟨_, handed⟩, _, handed'⟩ =>
        same_of_ok (Op.bind_ok handed) (Op.bind_ok handed') ready.pair ready.first.within
          ready.second.within trivial

/-! ## Scanning -/

theorem readPages_follows (grounded : s.Grounded) (coherent : s.Coherent) (file : HeapFile)
    (txn : TxnId) (mode : LockMode) (pages number : Nat) :
    (readPages file txn mode pages number).Leads s (fun _ => Follows s) (Follows s) := by
  induction pages generalizing s number with
  | zero => exact ⟨.refl s, coherent⟩
  | succ pages ih =>
    have fetches : (fetch txn ⟨file.table, number⟩ mode).Leads s (fun _ => Follows s) (Follows s) :=
      ((fetch_builds grounded txn _ mode).and (fetch_leads s txn _ mode)).mono
        (fun _ _ ⟨builds, fetches, _⟩ => ⟨builds, coherent.turnover fetches.toTurnover⟩)
        fun _ ⟨builds, fetches⟩ => ⟨builds, coherent.turnover fetches.toTurnover⟩
    refine fetches.bind fun frame fetched begun => ?_
    have found : (Op.ofExcept (frame.page.rows file.schema)).Leads fetched
        (fun _ after => after = fetched) (Follows s) :=
      Op.leads_ofExcept (fun _ _ => rfl) begun
    refine found.bind ?_
    rintro rows _ rfl
    refine (ih (grounded.builds begun.builds) begun.coherent (number + 1)).mono
      (fun _ _ => begun.trans) (fun _ => begun.trans) |>.bind ?_
    exact fun more after follows => Op.leads_pure _ follows

theorem scanAll_follows (grounded : s.Grounded) (coherent : s.Coherent) (txn : TxnId)
    (table : TableId) (mode : LockMode) :
    (scanAll txn table mode).Leads s (fun _ => Follows s) (Follows s) := by
  refine Op.Leads.congr ?_ (scanAll_eq s txn table mode)
  refine ((fileOf_leads s table).stops ⟨.refl s, coherent⟩).bind ?_
  rintro file found ⟨rfl, -⟩
  exact readPages_follows grounded coherent file txn mode _ 0

theorem Ready.readPages (ready : Ready mine txn space s t) (own : mine file.table) (mode : LockMode)
    (pages number : Nat) :
    Same mine txn space (readPages file txn mode pages number)
      (readPages file txn mode pages number) s t fun rows rows' _ _ => rows' = rows := by
  induction pages generalizing s t number with
  | zero => exact ready.same_pure rfl
  | succ pages ih =>
    refine Same.bind ready (ready.fetch ⟨file.table, number⟩ own mode)
      fun frame frame' u v _ _ _ ready same => ?_
    rw [same]
    refine Same.bind ready
      (ready.same_of_answer (frame.page.rows file.schema) rfl rfl) ?_
    rintro _ rows _ _ - - - ready ⟨-, rfl, -, -⟩
    exact Same.bind ready (ih ready (number + 1)) fun more more' u v _ _ _ ready same =>
      ready.same_pure (by rw [same])

/-- Scanning an own table gives the same rows on stores that agree there. -/
theorem Ready.scanAll (ready : Ready mine txn space s t) (own : mine table) (mode : LockMode) :
    Same mine txn space (scanAll txn table mode) (scanAll txn table mode) s t
      fun rows rows' _ _ => rows' = rows := by
  refine Same.congr ?_ (scanAll_eq s txn table mode) (scanAll_eq t txn table mode)
  refine Same.bind ready (ready.same_of_answer (s.catalog.file table) rfl
    (by rw [fileOf, ready.agree.catalog])) ?_
  rintro _ file u v - - - - ⟨listed, rfl, rfl, rfl⟩
  obtain rfl : file.table = table := (ready.first.coherent.catalog _ _ listed).1
  refine Same.bind ready (ready.same_of_answer (.ok (file.pageCount u.disk)) rfl (by
    rw [← ready.agree.pageCount own listed]
    rfl)) ?_
  rintro _ pages _ _ - - - - ⟨-, rfl, rfl, rfl⟩
  exact ready.readPages own mode pages 0

end PageStore.Store
