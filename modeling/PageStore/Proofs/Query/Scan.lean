import PageStore.Proofs.Query.Calm

/-!
# A scan reads its table page by page

`Store.scanAll` takes row after row from a plan, at most as many as a bound allows, and the plan
turns a page whenever the rows of the last one are given.  `Store.readPages` is what that comes to:
each page of the file is fetched once, in order, and its rows follow those of the pages before.

The two are the same (`Store.scanAll_eq`) because the bound is never reached: no page that a scan
can meet is longer than the longest page at its beginning (`Store.Short`), and a page has no more
rows than bits.  A call that scans a table and is never halted reads those pages too, so it gives
what the store's scan gives (`scan_eq_ends`).
-/

namespace PageStore

namespace Store

variable {s after : Store} {file : HeapFile} {txn : TxnId} {mode : LockMode} {bytes : Nat}

/-- The rows on so many pages of a file, from a number on. -/
def readPages (file : HeapFile) (txn : TxnId) (mode : LockMode) :
    (pages number : Nat) → Op (List Row)
  | 0, _ => pure []
  | pages + 1, number => do
    let frame ← fetch txn ⟨file.table, number⟩ mode
    let rows ← Op.ofExcept (frame.page.rows file.schema)
    return rows ++ (← readPages file txn mode pages (number + 1))

/-! ## The longest page -/

/-- No page that is cached or can be read has more than so many bytes. -/
structure Short (bytes : Nat) (s : Store) : Prop where
  cached : ∀ page frame, s.cache.get? page = some frame → frame.page.bytes.length ≤ bytes
  files : ∀ table file, s.catalog.file table = .ok file → file.pageSize ≤ bytes

theorem short_longestPage (s : Store) : s.Short s.longestPage where
  cached page frame cached := by
    apply le_foldl_max
    refine .inr (List.mem_append_right _ (List.mem_map.2 ⟨frame, ?_, rfl⟩))
    exact List.mem_map.2 ⟨(page, frame), Dictionary.mem_entries_iff.2 cached, rfl⟩
  files table file listed := by
    obtain ⟨entry, look, rfl⟩ := Catalog.file_eq_ok.1 listed
    apply le_foldl_max
    refine .inr (List.mem_append_left _ (List.mem_map.2 ⟨entry, ?_, rfl⟩))
    exact List.mem_map.2 ⟨(table, entry), Dictionary.mem_entries_iff.2 look, rfl⟩

theorem Short.turnover (short : s.Short bytes) (turnover : Turnover s after) :
    after.Short bytes where
  cached page frame cached := by
    rcases turnover.read page frame cached with before | ⟨file, listed, read⟩
    · exact short.cached page frame before
    · rw [(HeapFile.read_shape read).2]
      exact short.files page.table file listed
  files := by
    rw [turnover.catalog]
    exact short.files

end Store

open Store

variable {s after : Store} {file : HeapFile} {txn : TxnId} {mode : LockMode} {bytes : Nat}

/-! ## Turning pages -/

namespace Plan

open Turn

/-- What a turn of a plan is to the store alone. -/
def forget {σ α : Type} : EStateM.Result Stop (Store × σ) α → EStateM.Result Stop Store α
  | .ok a (s, _) => .ok a s
  | .error stop (s, _) => .error stop s

theorem all_eq (plan : Plan) (s : Store) :
    plan.all s = forget ((plan.start >>= fun _ => plan.collect) (s, plan.initial)) := by
  unfold all forget
  split <;> simp only [*]

theorem forget_eq_ok {σ α : Type} {result : EStateM.Result Stop (Store × σ) α} {a : α}
    {after : Store} (ok : forget result = .ok a after) : ∃ left, result = .ok a (after, left) := by
  rcases result with ⟨b, s, left⟩ | ⟨stop, s, left⟩
  · cases ok
    exact ⟨left, rfl⟩
  · cases ok

theorem forget_eq_error {σ α : Type} {result : EStateM.Result Stop (Store × σ) α} {stop : Stop}
    {after : Store} (error : forget result = .error stop after) :
    ∃ left, result = .error stop (after, left) := by
  rcases result with ⟨b, s, left⟩ | ⟨stop, s, left⟩
  · cases error
  · cases error
    exact ⟨left, rfl⟩

/-- The rows of a scan so far, with a row that it gives put before them. -/
abbrev putBefore (rows : List Row) (row : Row) : Turn (Option Cursor) (List Row) :=
  pure (row :: rows)

/-- A scan that has given the rows of a page turns to the next page, if there is one. -/
theorem scanNext_turns (s : Store) (file : HeapFile) (txn : TxnId) (mode : LockMode)
    {number left : Nat} (pages : file.pageCount s.disk - number = left + 1) :
    scanNext file txn mode (s, some ⟨number, []⟩) =
      match fetch txn ⟨file.table, number⟩ mode s with
      | .error stop after => .error stop (after, some ⟨number, []⟩)
      | .ok frame after =>
        match frame.page.rows file.schema with
        | .error e => .error (.failed e) (after, some ⟨number + 1, []⟩)
        | .ok [] => turnPages file txn mode left (number + 1) (after, some ⟨number + 1, []⟩)
        | .ok (row :: rows) => .ok (some row) (after, some ⟨number + 1, rows⟩) := by
  refine Eq.trans ?_ (turnPages_succ s file txn mode left number (some ⟨number, []⟩))
  rw [← pages]
  rfl

/-- The rows that are left of a page are given before the next page is turned to. -/
theorem pullAll_pending (s : Store) (number bound : Nat) (pending given : List Row) :
    pullAll (scanNext file txn mode) putBefore (pending.length + bound) given
        (s, some ⟨number, pending⟩) =
      pullAll (scanNext file txn mode) putBefore bound (pending.reverse ++ given)
        (s, some ⟨number, []⟩) := by
  induction pending generalizing given with
  | nil => simp only [List.length_nil, Nat.zero_add, List.reverse_nil, List.nil_append]
  | cons row pending ih =>
    have gives : scanNext file txn mode (s, some ⟨number, row :: pending⟩) =
        .ok (some row) (s, some ⟨number, pending⟩) := rfl
    rw [List.length_cons, Nat.add_right_comm, List.reverse_cons, List.append_assoc]
    exact (Op.bind_ok gives).trans (ih (row :: given))

/-- The rows of the pages from one on are those of this page, and then those of the others. -/
theorem readPages_collects {after : Store} {frame : Frame} {number : Nat} {rows : List Row}
    (fetched : fetch txn ⟨file.table, number⟩ mode s = .ok frame after)
    (found : frame.page.rows file.schema = .ok rows) (left : Nat) (given : List Row) :
    (do return (← readPages file txn mode (left + 1) number).reverse ++ given : Op _) s =
      (do return (← readPages file txn mode left (number + 1)).reverse ++
        (rows.reverse ++ given) : Op _) after := by
  have reads : readPages file txn mode (left + 1) number s =
      (do return rows ++ (← readPages file txn mode left (number + 1)) : Op _) after := by
    refine (Op.bind_ok fetched).trans (Op.bind_ok ?_)
    rw [found]
    rfl
  cases read : readPages file txn mode left (number + 1) after with
  | error stop last =>
    exact (Op.bind_error (reads.trans (Op.bind_error read))).trans (Op.bind_error read).symm
  | ok more last =>
    refine (Op.bind_ok (reads.trans (Op.bind_ok read))).trans ?_
    refine Eq.trans ?_ (Op.bind_ok read).symm
    simp only [List.reverse_append, List.append_assoc]

/-- Taking the rows of a scan whose next page is read takes the rows of that page, and then those of
a scan that is to turn to the page after it. -/
theorem pullAll_page {after : Store} {frame : Frame} {number left : Nat} {rows : List Row}
    (pages : file.pageCount s.disk - number = left + 1)
    (fetched : fetch txn ⟨file.table, number⟩ mode s = .ok frame after)
    (found : frame.page.rows file.schema = .ok rows) (given : List Row) (bound : Nat) :
    pullAll (scanNext file txn mode) putBefore (rows.length + bound + 1) given
        (s, some ⟨number, []⟩) =
      pullAll (scanNext file txn mode) putBefore (bound + 1) (rows.reverse ++ given)
        (after, some ⟨number + 1, []⟩) := by
  have disk := ((fetch_leads s txn ⟨file.table, number⟩ mode).of_ok fetched).1.disk
  have rest : file.pageCount after.disk - (number + 1) = left := by
    rw [disk]
    omega
  have turns := scanNext_turns s file txn mode pages
  simp only [fetched, found] at turns
  cases rows with
  | nil =>
    have goesOn : scanNext file txn mode (s, some ⟨number, []⟩) =
        scanNext file txn mode (after, some ⟨number + 1, []⟩) := by
      rw [turns]
      show _ = turnPages file txn mode (file.pageCount after.disk - (number + 1)) _ _
      rw [rest]
    rw [List.length_nil, Nat.zero_add]
    show EStateM.bind _ _ _ = EStateM.bind _ _ _
    rw [EStateM.bind, EStateM.bind, goesOn]
    rfl
  | cons row rows =>
    rw [List.length_cons, Nat.add_right_comm rows.length, List.reverse_cons, List.append_assoc]
    exact (Op.bind_ok turns).trans
      (pullAll_pending after (number + 1) (bound + 1) rows (row :: given))

/-- Taking the rows of a scan that is to turn to a page gives the rows of the pages from there on. -/
theorem pullAll_scan (short : s.Short bytes) (left number : Nat)
    (pages : file.pageCount s.disk - number = left) (given : List Row) (bound : Nat)
    (enough : left * (8 * bytes) < bound) :
    forget (pullAll (scanNext file txn mode) putBefore bound given (s, some ⟨number, []⟩)) =
      (do return (← readPages file txn mode left number).reverse ++ given : Op _) s := by
  obtain ⟨bound, rfl⟩ := Nat.exists_eq_succ_of_ne_zero (Nat.ne_of_gt (Nat.zero_lt_of_lt enough))
  induction left generalizing s number given bound with
  | zero =>
    have ends : scanNext file txn mode (s, some ⟨number, []⟩) = .ok none (s, some ⟨number, []⟩) := by
      show turnPages file txn mode (file.pageCount s.disk - number) number _ = _
      rw [pages]
      rfl
    exact congrArg forget (Op.bind_ok ends)
  | succ left ih =>
    have turns := scanNext_turns s file txn mode pages
    cases fetched : fetch txn ⟨file.table, number⟩ mode s with
    | error stop after =>
      simp only [fetched] at turns
      rw [pullAll_error (Nat.succ_pos bound) turns]
      exact (Op.bind_error (Op.bind_error fetched)).symm
    | ok frame after =>
      obtain ⟨fetches, cached, -⟩ := (fetch_leads s txn ⟨file.table, number⟩ mode).of_ok fetched
      cases found : frame.page.rows file.schema with
      | error e =>
        simp only [fetched, found] at turns
        rw [pullAll_error (Nat.succ_pos bound) turns]
        refine (Op.bind_error ((Op.bind_ok fetched).trans (Op.bind_error ?_))).symm
        rw [found]
        rfl
      | ok rows =>
        have short := short.turnover fetches.toTurnover
        have few := Nat.le_trans (Page.length_rows found)
          (Nat.mul_le_mul_left 8 (short.cached _ frame cached))
        have rest : file.pageCount after.disk - (number + 1) = left := by
          rw [fetches.disk]
          omega
        -- the rows of this page are within what the bound allows for one page
        rw [Nat.succ_mul] at enough
        obtain ⟨bound, rfl⟩ := Nat.exists_eq_add_of_le (show rows.length ≤ bound by omega)
        rw [readPages_collects fetched found]
        exact (congrArg forget (pullAll_page pages fetched found given bound)).trans
          (ih short (number + 1) rest (rows.reverse ++ given) bound (by omega))

/-- Collecting the rows of a scan that is open gives what is left of its last page, and then the
pages from there on. -/
theorem collect_scan (file : HeapFile) (schema : Schema) (txn : TxnId) (mode : LockMode) (s : Store)
    (place : Cursor) :
    forget ((scan file schema txn mode).collect (s, some place)) =
      (do return place.pending ++ (← readPages file txn mode
        (file.pageCount s.disk - place.nextPage) place.nextPage) : Op _) s := by
  have pages : file.pageCount s.disk ≤ (s.disk.read file.path).length := Nat.div_le_self _ _
  have room : (file.pageCount s.disk - place.nextPage) * (8 * s.longestPage) ≤ s.rowBound file :=
    Nat.mul_le_mul_right _ (by omega)
  have pulls := @pullAll_scan s file txn mode _ s.short_longestPage _ place.nextPage rfl
    (place.pending.reverse ++ []) (s.rowBound file + 1) (Nat.lt_succ_of_le room)
  rw [← pullAll_pending] at pulls
  show forget ((pullAll (scanNext file txn mode) putBefore
    (place.pending.length + (s.rowBound file + 1)) [] >>= fun rows => pure rows.reverse)
      (s, some place)) = _
  cases read : readPages file txn mode (file.pageCount s.disk - place.nextPage) place.nextPage s with
  | error stop after =>
    rw [Op.bind_error read] at pulls
    obtain ⟨left, pulled⟩ := forget_eq_error pulls
    rw [Op.bind_error pulled, Op.bind_error read]
    rfl
  | ok rows after =>
    rw [Op.bind_ok read] at pulls
    obtain ⟨left, pulled⟩ := forget_eq_ok pulls
    rw [Op.bind_ok pulled, Op.bind_ok read]
    show EStateM.Result.ok (rows.reverse ++ (place.pending.reverse ++ [])).reverse after = _
    rw [List.append_nil, List.reverse_append, List.reverse_reverse, List.reverse_reverse]
    rfl

end Plan

/-- A scan of a table reads the pages of its file, each once and in order. -/
theorem Store.scanAll_eq (s : Store) (txn : TxnId) (table : TableId) (mode : LockMode) :
    scanAll txn table mode s =
      (do
        let file ← fileOf table
        readPages file txn mode (← pageCount file) 0 : Op _) s := by
  cases listed : s.catalog.file table with
  | error e =>
    have unknown : Plan.scanOf s.catalog table none txn mode = .error e := by
      rw [Plan.scanOf, listed]
      rfl
    have missing : fileOf table s = .error (.failed e) s := by
      rw [fileOf, listed]
      rfl
    refine Eq.trans ?_ (Op.bind_error missing).symm
    show (Op.ofExcept (Plan.scanOf s.catalog table none txn mode) >>= Plan.all) s = _
    rw [unknown]
    rfl
  | ok file =>
    have found : Plan.scanOf s.catalog table none txn mode =
        .ok (.scan file file.schema txn mode) := by
      rw [Plan.scanOf, listed]
      rfl
    have opens : fileOf table s = .ok file s := by
      rw [fileOf, listed]
      rfl
    refine Eq.trans ?_ (Op.bind_ok opens).symm
    show (Op.ofExcept (Plan.scanOf s.catalog table none txn mode) >>= Plan.all) s = _
    rw [found]
    show Plan.all (.scan file file.schema txn mode) s = readPages file txn mode _ 0 s
    have reads := Plan.collect_scan file file.schema txn mode s ⟨0, []⟩
    rw [Plan.all_eq]
    refine reads.trans ?_
    cases read : readPages file txn mode (file.pageCount s.disk) 0 s with
    | error stop after => exact Op.bind_error read
    | ok rows after => exact Op.bind_ok read

/-- A scan of a table that is listed reads the pages that its file has. -/
theorem Store.scanAll_of_listed {table : TableId} (listed : s.catalog.file table = .ok file)
    (txn : TxnId) (mode : LockMode) :
    scanAll txn table mode s = readPages file txn mode (file.pageCount s.disk) 0 s := by
  have opens : fileOf table s = .ok file s := by
    rw [fileOf, listed]
    rfl
  exact (scanAll_eq ..).trans (Op.bind_ok opens)

/-- What a scan that succeeds has read. -/
theorem Store.readPages_of_scanAll {table : TableId} {rows : List Row} (sound : s.catalog.Sound)
    (scanned : scanAll txn table mode s = .ok rows after) :
    ∃ file, file.table = table ∧ s.catalog.file file.table = .ok file ∧
      readPages file txn mode (file.pageCount s.disk) 0 s = .ok rows after := by
  have reads := scanned
  rw [scanAll_eq] at reads
  obtain ⟨file, _, opens, -⟩ := Op.bind_eq_ok.1 reads
  obtain ⟨listed, rfl⟩ := Op.ofExcept_eq_ok.1 opens
  obtain rfl : file.table = table := (sound _ _ listed).1
  exact ⟨file, rfl, listed, (scanAll_of_listed listed txn mode).symm.trans scanned⟩

/-! ## Scans that nobody halts -/

/-- The pages from one on are read as a halted scan reads them, page by page. -/
theorem Store.readPages_succ (file : HeapFile) (txn : TxnId) (mode : LockMode) (left number : Nat) :
    readPages file txn mode (left + 1) number = (do
      let rows ← Call.readPage file txn mode number
      return rows ++ (← readPages file txn mode left (number + 1))) := by
  rw [Call.readPage_eq, bind_assoc]
  rfl

/-- A scan that is to read so many pages more reads them, if nobody halts it. -/
theorem Call.scan_ends (file : HeapFile) (txn : TxnId) (mode : LockMode) {left number : Nat}
    {s : Store} (pages : file.pageCount s.disk = number + left) (found : List Row) :
    Ends txn (.scan file mode number found) s
      ((do return .scanned (found ++ (← readPages file txn mode left number)) : Op Answer) s) := by
  have counts (s : Store) : pageCount file s = .ok (file.pageCount s.disk) s := rfl
  induction left generalizing s number found with
  | zero =>
    have past : ¬ number < file.pageCount s.disk := by omega
    have ends : (Call.scan file mode number found).advance txn s = .ok (.inl (.scanned found)) s := by
      refine (Op.bind_ok (counts s)).trans ?_
      rw [if_neg past]
      rfl
    have none : readPages file txn mode 0 number s = .ok [] s := rfl
    rw [Op.bind_ok none, List.append_nil]
    exact .answers ends
  | succ left ih =>
    have inside : number < file.pageCount s.disk := by omega
    have goesOn : (Call.scan file mode number found).advance txn s =
        (do return .inr (.scan file mode (number + 1) (found ++ (← readPage file txn mode number))) :
          Op (Answer ⊕ Call)) s := by
      refine (Op.bind_ok (counts s)).trans ?_
      rw [if_pos inside]
    rw [readPages_succ, bind_assoc]
    cases read : readPage file txn mode number s with
    | error stop after =>
      rw [Op.bind_error read] at goesOn ⊢
      exact .stops goesOn
    | ok rows after =>
      have fetched := read
      rw [readPage_eq] at fetched
      obtain ⟨frame, _, fetched, decoded⟩ := Op.bind_eq_ok.1 fetched
      obtain ⟨-, rfl⟩ := Op.ofExcept_eq_ok.1 decoded
      have same := ((fetch_leads s txn ⟨file.table, number⟩ mode).of_ok fetched).1.disk
      have rest : file.pageCount after.disk = number + 1 + left := by
        rw [same, pages]
        omega
      rw [Op.bind_ok read] at goesOn ⊢
      refine .goesOn goesOn ?_
      have later := ih rest (found ++ rows)
      simpa only [bind_assoc, pure_bind, List.append_assoc] using later

/-- A scan that nobody halts is the store's. -/
theorem scan_eq_ends (txn : TxnId) (table : TableId) (mode : LockMode) (s : Store) :
    match (Demand.scan table mode).start s with
    | .ok call begun =>
      call.Ends txn begun ((do return .scanned (← scanAll txn table mode) : Op Answer) s)
    | .error stop after => scanAll txn table mode s = .error stop after := by
  cases opened : fileOf table s with
  | error stop after =>
    have starts : (Demand.scan table mode).start s = .error stop after := Op.bind_error opened
    rw [starts]
    exact (scanAll_eq s txn table mode).trans (Op.bind_error opened)
  | ok file after =>
    have starts : (Demand.scan table mode).start s = .ok (.scan file mode 0 []) after :=
      Op.bind_ok opened
    rw [starts]
    obtain ⟨listed, rfl⟩ := Op.ofExcept_eq_ok.1 opened
    have ends := Call.scan_ends file txn mode (Nat.zero_add (file.pageCount after.disk)).symm []
    show Call.Ends txn _ after (EStateM.bind _ _ after)
    rw [EStateM.bind, scanAll_of_listed listed]
    exact ends

end PageStore
