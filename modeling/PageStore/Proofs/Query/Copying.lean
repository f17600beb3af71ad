import PageStore.Proofs.Query.Batches
import PageStore.Proofs.Query.Growth
import PageStore.Proofs.Query.Schemas
import PageStore.Proofs.Query.Sweep
import PageStore.Proofs.Record.Grammar
import PageStore.Proofs.Schedule.Slotted.Accesses
import PageStore.Proofs.Schedule.Slotted.Occupancy

/-!
# Copying a table into itself

An insertion of the rows of a scan inserts each row before the scan gives the next.  If both are of
one table, the copies come between the rows that are scanned.  The rows of a page are taken when the
scan turns it, so a copy is met again if its page is one that was not turned yet.

Each copy goes to the first free slot of all, so where it goes is a matter of numbers.  The rows
that the turned pages hold are never more than twice the rows that were given with those that are
still pending (`Copying.least`).  They are as many exactly if no copy was put ahead of the scan, and
then the turned pages had at least half of their slots free (`Store.Settled.half_here`).  So each
row is copied once exactly if for each number of pages at least half of the slots of the first pages
were free (`Store.HalfFree`); otherwise the insertion counts more rows than there were, or goes on
until the cache is full (`Store.Copied`).
-/

namespace PageStore

open Store

namespace Contents

variable {contents : Contents} {changes : List Change} {record : RecordId}

/-- What holds nothing was not changed, if every change leaves a row. -/
theorem not_changed_of_none (leaves : ∀ change ∈ changes, change.row ≠ none)
    (holds : contents.apply changes record = .ok none) :
    ∀ change ∈ changes, change.record ≠ record := by
  induction changes using List.reverseRecOn with
  | nil => nofun
  | append_singleton changes last ih =>
    rw [apply_snoc] at holds
    split at holds
    · exact absurd (Except.ok.inj holds) (leaves last (by simp))
    · next apart =>
      have others := ih (fun change mem => leaves change (List.mem_append_left _ mem)) holds
      intro change mem same
      rcases List.mem_append.1 mem with mem | mem
      · exact others change mem same
      · exact apart ((List.mem_singleton.1 mem) ▸ same.symm)

end Contents

/-- A row that was read from a page is stored as it is. -/
theorem Page.stored_of_mem_rows {page : Page} {schema : Schema} {rows : List Row} {row : Row}
    (ok : page.rows schema = .ok rows) (mem : row ∈ rows) : row.stored = row := by
  obtain ⟨slot, -, stored⟩ := Answer.exists_of_mem (Answer.forall₂_of_mapM ok) mem
  unfold storedRow at stored
  split at stored
  · next fields read =>
    cases stored
    obtain ⟨enough, valid⟩ := readable_of_decodeFields read
    obtain ⟨_, again, -, same, -⟩ := exists_decodeFields enough valid
    cases read.symm.trans again
    rw [Row.stored, same]
  · cases stored

namespace Store

variable {s t after : Store} {txn : TxnId} {mode : LockMode} {file : HeapFile}
  {given rows : List Row} {row : Row} {place : Cursor} {number : Nat} {record : RecordId}
  {copies : List Change}

/-! ## Copies -/

/-- For each number of pages, at least half of the slots of the first pages of a table are free. -/
def HalfFree (file : HeapFile) (s : Store) : Prop :=
  ∀ pages ≤ file.pageCount s.disk, 2 * file.occupancy s.shownAt pages ≤ pages * file.slots

/-- Copies of rows, each in a slot of its own that was free before. -/
structure Copies (file : HeapFile) (s : Store) (rows : List Row) (copies : List Change)
    (after : Store) : Prop where
  each : List.Forall₂ (fun row (copy : Change) =>
    copy.row = some { row with record := some copy.record }) rows copies
  distinct : (copies.map Change.record).Nodup
  slots : ∀ copy ∈ copies, (after.slotTable file).Slot file copy.record
  free : ∀ copy ∈ copies, s.shownAt copy.record = .ok none
  shown : after.shownAt = s.shownAt.apply copies

theorem Copies.of_same (copied : Copies file s rows copies t)
    (same : after.slotTable file = t.slotTable file) : Copies file s rows copies after where
  each := copied.each
  distinct := copied.distinct
  slots := same ▸ copied.slots
  free := copied.free
  shown := (congrArg SlotTable.contents same).trans copied.shown

/-- A slot that is free now was free before, and holds none of the copies. -/
theorem Copies.free_of_free (copied : Copies file s rows copies t)
    (free : t.shownAt record = .ok none) :
    s.shownAt record = .ok none ∧ ∀ copy ∈ copies, copy.record ≠ record := by
  rw [copied.shown] at free
  have leaves : ∀ copy ∈ copies, copy.row ≠ none := by
    intro copy mem
    obtain ⟨row, -, made⟩ := Answer.exists_of_mem copied.each mem
    rw [made]
    nofun
  have others := Contents.not_changed_of_none leaves free
  rw [Contents.apply_of_not_mem _ others] at free
  exact ⟨free, others⟩

/-- A row that is added is one more copy. -/
theorem Copies.add (copied : Copies file s rows copies t)
    (adds : (t.slotTable file).Adds file row record (after.slotTable file))
    (stored : row.stored = row) :
    Copies file s (rows ++ [row]) (copies ++ [⟨record, some { row with record := some record }⟩])
      after := by
  obtain ⟨free, others⟩ := copied.free_of_free adds.free
  have pages := adds.pages
  refine ⟨List.rel_append copied.each (.cons rfl .nil), ?_, fun copy mem => ?_,
    fun copy mem => ?_, ?_⟩
  · rw [List.map_append, List.nodup_append]
    refine ⟨copied.distinct, List.nodup_singleton _, fun place mem last here => ?_⟩
    obtain ⟨copy, listed, rfl⟩ := List.mem_map.1 mem
    rw [List.map_singleton, List.mem_singleton] at here
    exact here ▸ others copy listed
  · rcases List.mem_append.1 mem with mem | mem
    · have slot := copied.slots copy mem
      refine ⟨slot.own, Nat.lt_of_lt_of_le slot.page ?_, slot.slot⟩
      rw [pages]
      exact Nat.le_max_left _ _
    · obtain rfl := List.mem_singleton.1 mem
      refine ⟨adds.own, ?_, adds.slot⟩
      rw [pages]
      exact Nat.lt_of_lt_of_le (Nat.lt_succ_self _) (Nat.le_max_right _ _)
  · rcases List.mem_append.1 mem with mem | mem
    · exact copied.free copy mem
    · exact (List.mem_singleton.1 mem) ▸ free
  · have shown : after.shownAt = t.shownAt.change ⟨record, some (row.storedAt record)⟩ :=
      adds.contents
    rw [shown, copied.shown, Contents.apply_append, Row.storedAt, stored]
    rfl

/-! ## The scan and its copies -/

/-- The rows that the turned pages hold are twice those that were given with those that are pending:
no copy was put ahead of the scan. -/
def NoneAhead (file : HeapFile) (given : List Row) (t : Store) (place : Cursor) : Prop :=
  file.occupancy t.shownAt place.nextPage = 2 * given.length + place.pending.length

/-- What there is while no copy was put ahead of the scan: all copies are in pages that were turned;
the rows that were given and those that are pending are those of these pages when the scan was
opened; and at least half of the slots of the first pages were free. -/
structure Settled (file : HeapFile) (s : Store) (given : List Row) (copies : List Change)
    (t : Store) (place : Cursor) : Prop where
  behind : ∀ copy ∈ copies, copy.record.page.number < place.nextPage
  pages : file.pageCount t.disk = file.pageCount s.disk
  lists : s.shownAt.Lists (· ∈ file.records place.nextPage) (given ++ place.pending)
  half : ∀ pages < place.nextPage, 2 * file.occupancy s.shownAt pages ≤ pages * file.slots

/-- An insertion of the rows of a scan into the table of the scan, between one row and the next. -/
structure Copying (txn : TxnId) (file : HeapFile) (s : Store) (given : List Row) (t : Store)
    (place : Cursor) : Prop where
  sole : Sole txn file t
  capacity : t.capacity = s.capacity
  within : place.nextPage ≤ file.pageCount t.disk
  kept : ∀ row ∈ place.pending, row.fits file.schema = true ∧ row.stored = row
  copied : ∃ copies, Copies file s given copies t ∧
    (NoneAhead file given t place → Settled file s given copies t place)
  total : file.occupancy t.shownAt (file.pageCount t.disk) =
    file.occupancy s.shownAt (file.pageCount s.disk) + given.length
  least : file.occupancy t.shownAt place.nextPage ≤ 2 * given.length + place.pending.length
  halfFree : s.HalfFree file → NoneAhead file given t place

/-- The rows that were given and those that are pending are as many as the turned pages held. -/
theorem Settled.length_eq (settled : Settled file s given copies t place) :
    given.length + place.pending.length = file.occupancy s.shownAt place.nextPage := by
  rw [← List.length_append]
  exact settled.lists.length_eq (HeapFile.nodup_records file _) fun _ _ _ => Iff.rfl

/-- When all rows of the turned pages were given and copied to these pages, at least half of the
slots of the pages were free. -/
theorem Settled.half_here (settled : Settled file s given copies t ⟨number, []⟩)
    (none : NoneAhead file given t ⟨number, []⟩) :
    2 * file.occupancy s.shownAt number ≤ number * file.slots := by
  have given' : given.length = file.occupancy s.shownAt number := settled.length_eq
  have twice : file.occupancy t.shownAt number = 2 * given.length := none
  rw [← given', ← twice]
  exact HeapFile.occupancy_le file t.shownAt number

/-- While rows are pending, the turned pages have a free slot, if at least half of the slots were
free. -/
theorem Copying.occupancy_lt (copying : Copying txn file s given t ⟨number, row :: rows⟩)
    (half : s.HalfFree file) : file.occupancy t.shownAt number < number * file.slots := by
  obtain ⟨copies, -, settles⟩ := copying.copied
  have none := copying.halfFree half
  have settled := settles none
  have length : given.length + (rows.length + 1) = file.occupancy s.shownAt number :=
    settled.length_eq
  have twice : file.occupancy t.shownAt number = 2 * given.length + (rows.length + 1) := none
  have free := half number (settled.pages ▸ copying.within)
  omega

theorem copying_start (sole : Sole txn file s) : Copying txn file s [] s ⟨0, []⟩ where
  sole := sole
  capacity := rfl
  within := Nat.zero_le _
  kept := nofun
  copied := ⟨[], ⟨.nil, .nil, nofun, nofun, rfl⟩, fun _ =>
    ⟨nofun, rfl, Contents.lists_nil fun _ => List.not_mem_nil, nofun⟩⟩
  total := rfl
  least := Nat.le_refl 0
  halfFree _ := rfl

/-! ## Turning a page -/

/-- The scan turns to the next page. -/
theorem Copying.turn {frame : Frame} (copying : Copying txn file s given t ⟨number, []⟩)
    (inside : number < file.pageCount t.disk)
    (fetched : fetch txn ⟨file.table, number⟩ mode t = .ok frame after)
    (found : frame.page.rows file.schema = .ok rows) :
    Copying txn file s given after ⟨number + 1, rows⟩ := by
  have turned := copying.sole.fetched fetched
  have pages : file.pageCount after.disk = file.pageCount t.disk :=
    congrArg SlotTable.pages turned.same
  have shown : after.shownAt = t.shownAt := congrArg SlotTable.contents turned.same
  have lists := turned.lists found
  have here : file.occupancy after.shownAt (number + 1) =
      file.occupancy t.shownAt number + rows.length := by
    rw [shown, HeapFile.occupancy_succ,
      lists.length_eq (HeapFile.nodup_recordsOf file number) fun _ _ _ => Iff.rfl]
  have ahead : NoneAhead file given after ⟨number + 1, rows⟩ ↔
      NoneAhead file given t ⟨number, []⟩ := by
    simp only [NoneAhead, here, List.length_nil, Nat.add_right_cancel_iff, Nat.add_zero]
  obtain ⟨copies, copied, settles⟩ := copying.copied
  have kept (row : Row) (mem : row ∈ rows) : row.fits file.schema = true ∧ row.stored = row :=
    ⟨Page.fits_of_mem_rows found mem, Page.stored_of_mem_rows found mem⟩
  refine ⟨turned.sole, turned.capacity.trans copying.capacity, pages ▸ inside, kept,
    ⟨copies, copied.of_same turned.same, fun none => ?_⟩, ?_, ?_,
    fun half => ahead.2 (copying.halfFree half)⟩
  · have none := ahead.1 none
    have settled := settles none
    refine ⟨fun copy mem => Nat.lt_succ_of_lt (settled.behind copy mem), pages.trans settled.pages,
      ?_, fun before upTo => ?_⟩
    · -- The page shows what it showed when the scan was opened, as all copies are before it.
      have page : s.shownAt.Lists (· ∈ file.recordsOf number) rows := by
        refine lists.of_eq fun record mem => ?_
        rw [copied.shown]
        refine (Contents.apply_of_not_mem _ fun copy listed same => ?_).symm
        have before := settled.behind copy listed
        rw [same, (HeapFile.mem_recordsOf.1 mem).1] at before
        exact Nat.lt_irrefl _ before
      have lists := settled.lists.append page fun early late first second => .inl ?_
      · rw [List.append_nil] at lists
        refine lists.congr fun record _ _ => ?_
        rw [HeapFile.records_succ, List.mem_append]
      · rw [(HeapFile.mem_recordsOf.1 second).1]
        exact (HeapFile.mem_records.1 first).2.1
    · rcases Nat.lt_succ_iff_lt_or_eq.1 upTo with before | rfl
      · exact settled.half _ before
      · exact settled.half_here none
  · rw [shown, pages]
    exact copying.total
  · have least := copying.least
    simp only [List.length_nil, Nat.add_zero] at least
    show file.occupancy after.shownAt (number + 1) ≤ _
    rw [here]
    exact Nat.add_le_add_right least _

/-! ## Writing a row -/

/-- A row that a transaction inserts alone was added in the first free slot. -/
theorem Sole.inserted (sole : Sole txn file t)
    (inserts : Store.insert txn file.table row t = .ok () after) :
    Sole txn file after ∧ after.capacity = t.capacity ∧
      ∃ record, (t.slotTable file).Adds file row record (after.slotTable file) := by
  rcases sole.insert_cases row with does | ⟨_, fails, -⟩
  · have performs : Access.perform txn file (.insert row) t = .ok [] after := Op.bind_ok inserts
    rcases does with ⟨sole', capacity, step⟩
    rw [performs] at sole' capacity step
    exact ⟨sole', capacity, sole.adds step⟩
  · cases inserts.symm.trans fails

/-- A row that is added is one more row of the table. -/
theorem Sole.occupancy_added (sole : Sole txn file t)
    (adds : (t.slotTable file).Adds file row record (after.slotTable file)) :
    file.occupancy after.shownAt (file.pageCount after.disk) =
      file.occupancy t.shownAt (file.pageCount t.disk) + 1 := by
  have pages : file.pageCount after.disk = max (file.pageCount t.disk) (record.page.number + 1) :=
    adds.pages
  have more : file.occupancy after.shownAt (file.pageCount after.disk) = _ :=
    adds.occupancy_eq (file.pageCount after.disk)
  rw [more, if_pos (by omega)]
  refine congrArg (· + 1) ?_
  show file.occupancy t.shownAt (file.pageCount after.disk) = _
  rcases Nat.lt_or_eq_of_le adds.page with inside | next
  · have inside : record.page.number < file.pageCount t.disk := inside
    rw [pages, Nat.max_eq_left inside]
  · -- A page that was appended held nothing.
    have next : record.page.number = file.pageCount t.disk := next
    have vacant : (file.recordsOf (file.pageCount t.disk)).countP t.shownAt.holds = 0 := by
      refine List.countP_eq_zero.2 fun ⟨place, slot⟩ mem holds => ?_
      obtain rfl := (HeapFile.mem_recordsOf.1 mem).1
      rw [Contents.holds_of_none (sole.shownAt_next slot)] at holds
      cases holds
    rw [pages, next, Nat.max_eq_right (Nat.le_succ _), HeapFile.occupancy_succ, vacant,
      Nat.add_zero]

/-- The first of the pending rows is inserted. -/
theorem Copying.write (copying : Copying txn file s given t ⟨number, row :: rows⟩)
    (inserts : insert txn file.table row t = .ok () after) :
    Copying txn file s (given ++ [row]) after ⟨number, rows⟩ := by
  obtain ⟨sole, capacity, record, adds⟩ := copying.sole.inserted inserts
  obtain ⟨copies, copied, settles⟩ := copying.copied
  have pages : file.pageCount after.disk = max (file.pageCount t.disk) (record.page.number + 1) :=
    adds.pages
  have within : number ≤ file.pageCount t.disk := copying.within
  have least : file.occupancy t.shownAt number ≤ 2 * given.length + (rows.length + 1) :=
    copying.least
  have more : file.occupancy after.shownAt number =
      file.occupancy t.shownAt number + if record.page.number < number then 1 else 0 :=
    adds.occupancy_eq number
  have ahead : NoneAhead file (given ++ [row]) after ⟨number, rows⟩ ↔
      NoneAhead file given t ⟨number, row :: rows⟩ ∧ record.page.number < number := by
    simp only [NoneAhead, List.length_append, List.length_cons, List.length_nil, more]
    split <;> omega
  refine ⟨sole, capacity.trans copying.capacity, Nat.le_trans within (pages ▸ Nat.le_max_left _ _),
    fun other mem => copying.kept other (.tail _ mem),
    ⟨_, copied.add adds (copying.kept row (.head _)).2, fun none => ?_⟩, ?_, ?_, fun half => ?_⟩
  · obtain ⟨none, before⟩ := ahead.1 none
    have settled := settles none
    refine ⟨fun copy mem => ?_, ?_, ?_, settled.half⟩
    · rcases List.mem_append.1 mem with mem | mem
      · exact settled.behind copy mem
      · exact (List.mem_singleton.1 mem) ▸ before
    · rw [pages, Nat.max_eq_left (Nat.lt_of_lt_of_le before within), settled.pages]
    · rw [List.append_assoc]
      exact settled.lists
  · rw [copying.sole.occupancy_added adds, copying.total, List.length_append]
    rfl
  · simp only [List.length_append, List.length_cons, List.length_nil, more]
    split <;> omega
  · exact ahead.2 ⟨copying.halfFree half, adds.lt_of_occupancy (copying.occupancy_lt half)⟩

theorem sweeps_copying (txn : TxnId) (file : HeapFile) (mode : LockMode) (s : Store) :
    Plan.Sweeps file txn mode (insert txn file.table) (Copying txn file s) where
  turned copying inside fetched found := copying.turn inside fetched found
  written copying inserts := copying.write inserts

/-! ## How it ends -/

/-- Once all pages were turned, the rows that were given are those that the table held when the scan
was opened, and it has as many pages as then; or they are more, and then some of the first pages had
too few free slots. -/
theorem Copying.ended (copying : Copying txn file s given t ⟨number, []⟩)
    (past : file.pageCount t.disk ≤ number)
    (lists : s.shownAt.Lists (· ∈ file.records (file.pageCount s.disk)) rows) :
    s.HalfFree file ∧ given = rows ∧ file.pageCount t.disk = file.pageCount s.disk ∨
      ¬ s.HalfFree file ∧ rows.length < given.length := by
  obtain ⟨copies, -, settles⟩ := copying.copied
  obtain rfl : number = file.pageCount t.disk := Nat.le_antisymm copying.within past
  have held : rows.length = file.occupancy s.shownAt (file.pageCount s.disk) :=
    lists.length_eq (HeapFile.nodup_records file _) fun _ _ _ => Iff.rfl
  have total := copying.total
  have least : file.occupancy t.shownAt (file.pageCount t.disk) ≤ 2 * given.length := copying.least
  by_cases half : s.HalfFree file
  · have settled := settles (copying.halfFree half)
    have given' := settled.lists
    rw [List.append_nil, settled.pages] at given'
    exact .inl ⟨half, given'.unique lists, settled.pages⟩
  · refine .inr ⟨half, ?_⟩
    have some : ¬ NoneAhead file given t ⟨file.pageCount t.disk, []⟩ := fun none => by
      have settled := settles none
      refine half fun pages upTo => ?_
      rcases Nat.lt_or_eq_of_le (settled.pages ▸ upTo) with before | rfl
      · exact settled.half pages before
      · exact settled.half_here none
    have more : file.occupancy t.shownAt (file.pageCount t.disk) ≠ 2 * given.length := some
    omega

/-- The next page is refused only if the cache is full, and then the first pages had too few free
slots. -/
theorem Copying.turn_stopped {stop : Stop} (copying : Copying txn file s given t ⟨number, []⟩)
    (room : file.pageCount s.disk ≤ s.capacity) (inside : number < file.pageCount t.disk)
    (refuses : fetch txn ⟨file.table, number⟩ mode t = .error stop after) :
    stop = .failed (.cacheExhausted s.capacity) ∧ ¬ s.HalfFree file := by
  obtain ⟨copies, -, settles⟩ := copying.copied
  rcases copying.sole.fetch_cases inside mode with ⟨_, _, fetched⟩ | ⟨lacking, _, fails, -⟩
  · cases refuses.symm.trans fetched
  · cases refuses.symm.trans fails
    refine ⟨by rw [copying.capacity], fun half => ?_⟩
    rw [(settles (copying.halfFree half)).pages, copying.capacity] at lacking
    exact Nat.not_le_of_lt lacking room

/-- A pending row cannot be inserted only if the cache is full, and then the first pages had too few
free slots. -/
theorem Copying.write_stopped {stop : Stop}
    (copying : Copying txn file s given t ⟨number, row :: rows⟩)
    (room : file.pageCount s.disk ≤ s.capacity)
    (fails : insert txn file.table row t = .error stop after) :
    stop = .failed (.cacheExhausted s.capacity) ∧ ¬ s.HalfFree file := by
  obtain ⟨copies, -, settles⟩ := copying.copied
  rcases copying.sole.insert_cases row with does | ⟨_, fails', crowded⟩
  · have performs : Access.perform txn file (.insert row) t = .error stop after :=
      Op.bind_error fails
    have step := does.step
    rw [performs] at step
    cases step.misfits_of_error.symm.trans (copying.kept row (.head _)).1
  · cases fails.symm.trans fails'
    refine ⟨by rw [copying.capacity], fun half => ?_⟩
    have pages := (settles (copying.halfFree half)).pages
    rcases crowded.grown with same | full
    · have lacking := crowded.lacking
      rw [same, pages, copying.capacity] at lacking
      exact Nat.not_le_of_lt lacking room
    · obtain ⟨record, mem, free⟩ := HeapFile.exists_free_of_occupancy (copying.occupancy_lt half)
      obtain ⟨own, before, slot⟩ := HeapFile.mem_records.1 mem
      have used := full record ⟨own, Nat.lt_of_lt_of_le before copying.within, slot⟩
      cases free.symm.trans (Contents.holds_iff.2 used)

/-- The rows of a page can be read. -/
theorem Turned.exists_rows {frame : Frame} (turned : Turned txn file mode number t frame after)
    (sole : Sole txn file t) : ∃ rows, frame.page.rows file.schema = .ok rows :=
  Page.exists_rows fun slot => by
    rw [turned.shows]
    exact sole.legible.shown _

/-- How the call ends that is to copy the rows of a table into the table: each row was copied once,
no page was added, and the call answers the number of the rows, if at least half of the slots of the
first pages were free for each number of pages; otherwise some of the copies were copied again, and
the call answers the number of all, or the cache has no place for another page. -/
inductive Copied {σ : Type} (file : HeapFile) (s : Store) (rows : List Row) :
    EStateM.Result Stop (Store × σ) (Option Row) → Prop
  | once {copies : List Change} {after : Store} {left : σ} {row : Row} (half : s.HalfFree file)
      (copied : Copies file s rows copies after)
      (pages : file.pageCount after.disk = file.pageCount s.disk) (counts : row.Counts rows.length) :
      Copied file s rows (.ok (some row) (after, left))
  | again {given : List Row} {copies : List Change} {after : Store} {left : σ} {row : Row}
      (full : ¬ s.HalfFree file) (copied : Copies file s given copies after)
      (more : rows.length < given.length) (counts : row.Counts given.length) :
      Copied file s rows (.ok (some row) (after, left))
  | exhausted {after : Store} {left : σ} (full : ¬ s.HalfFree file) :
      Copied file s rows (.error (.failed (.cacheExhausted s.capacity)) (after, left))

open Plan Turn

/-- The rows of a scan are inserted into the table of the scan. -/
theorem Sole.copied (sole : Sole txn file s) (room : file.pageCount s.disk ≤ s.capacity)
    (lists : s.shownAt.Lists (· ∈ file.records (file.pageCount s.disk)) rows) (schema : Schema)
    (mode : LockMode) :
    let plan := Plan.insert (.scan file schema txn mode) txn file.table
    Copied file s rows (plan.next (s, (Progress.running, (some ⟨0, []⟩ : Option Cursor)))) := by
  intro plan
  have sweeps := sweeps_copying txn file mode s
  have start := copying_start sole
  have below := (Plan.scan file schema txn mode).endsBelow_insert sole.coherent sole.fits txn
    file.table
  cases result : plan.next (s, (Progress.running, (some ⟨0, []⟩ : Option Cursor))) with
  | ok answer now =>
    obtain ⟨after, left⟩ := now
    obtain ⟨given, ended, takes, none, rfl⟩ := below.takes_of_answered result
    obtain ⟨last, same, copying⟩ := sweeps.takes takes rfl start
    obtain ⟨ended, _⟩ := ended
    cases same
    obtain ⟨number, copying, past⟩ := sweeps.drained copying none
    obtain ⟨copies, copied, -⟩ := copying.copied
    rcases copying.ended past lists with ⟨half, rfl, pages⟩ | ⟨full, more⟩
    · exact .once half copied pages (Row.counts_iff.2 rfl)
    · exact .again full copied more (Row.counts_iff.2 rfl)
  | error stop now =>
    obtain ⟨after, left⟩ := now
    obtain ⟨attempt, fails, rfl⟩ := below.fails_of_stopped result
    have ends : attempt.stop = .failed (.cacheExhausted s.capacity) ∧ ¬ s.HalfFree file := by
      cases fails with
      | @refused _ middle _ _ takes refuses =>
        obtain ⟨last, same, copying⟩ := sweeps.takes takes rfl start
        obtain ⟨middle, _⟩ := middle
        cases same
        obtain ⟨t, number, copying, inside, refuses | ⟨frame, e, fetched, unread⟩⟩ :=
          sweeps.stopped copying refuses
        · exact copying.turn_stopped room inside refuses
        · obtain ⟨rows, found⟩ := (copying.sole.fetched fetched).exists_rows copying.sole
          cases unread.symm.trans found
      | @lost _ middle _ _ _ _ _ takes given fails =>
        obtain ⟨last, same, copying⟩ := sweeps.takes takes rfl start
        obtain ⟨middle, _⟩ := middle
        cases same
        obtain ⟨number, rows, -, copying⟩ := sweeps.next copying given
        exact copying.write_stopped room fails
    rw [ends.1]
    exact .exhausted ends.2

/-- The rows of a table can be listed by a transaction that is alone at the table. -/
theorem Sole.exists_lists (sole : Sole txn file s) (room : file.pageCount s.disk ≤ s.capacity) :
    ∃ rows, s.shownAt.Lists (fun record => record.page.table = file.table) rows ∧
      s.shownAt.Lists (· ∈ file.records (file.pageCount s.disk)) rows := by
  obtain ⟨rows, lists⟩ := (sole.scan room .shared).step.exists_lists
  refine ⟨rows, lists.congr fun record row held => ⟨fun slot => slot.own, fun own => ?_⟩,
    lists.congr fun record _ _ => ⟨fun slot => ?_, fun mem => ?_⟩⟩
  · have inside := lt_pageCount_of_shown sole.coherent (by rw [own, sole.listed]) held
    exact sole.slot_of_isUsed room own inside ⟨row, held⟩
  · exact HeapFile.mem_records.2 ⟨slot.own, slot.page, slot.slot⟩
  · obtain ⟨own, inside, slot⟩ := HeapFile.mem_records.1 mem
    exact ⟨own, inside, slot⟩

end Store

open Plan Turn

/-- A scan of a table can be inserted into the table. -/
theorem Plan.insertOf_of_scanOf {catalog : Catalog} {table : TableId} {label : Option String}
    {txn : TxnId} {mode : LockMode} {child : Plan}
    (scans : scanOf catalog table label txn mode = .ok child) :
    insertOf catalog child txn table = .ok (insert child txn table) := by
  obtain ⟨file, listed, same⟩ := Answer.bind_eq_ok.1 scans
  cases same
  have agrees : ∀ schema : Schema, schema.types = file.schema.types →
      insertOf catalog (scan file schema txn mode) txn table =
        .ok (insert (scan file schema txn mode) txn table) := by
    intro schema types
    rw [insertOf, listed]
    exact if_pos (beq_iff_eq.2 types)
  cases label with
  | none => exact agrees _ rfl
  | some label => exact agrees _ (Schema.types_labelled file.schema label)

namespace System

variable {start sys : System} {reports : List Report} {allowed : System → Action → Prop}
  {txn : TxnId} {file : HeapFile} {label : Option String} {mode : LockMode} {child : Plan}

/-- A scan of a table can be inserted into the table, and the insertion comes to an end: the rows
that it takes of the scan are bounded from the start.  A transaction that is alone at the table, with
a cache that has room for its pages, copies each row once, in a slot that was free, adds no page and
answers the number of rows, if at least half of the slots of the first pages are free for each number
of pages.  Otherwise it counts more rows than there were, or stops when the cache is full. -/
theorem insertion_copies_scanned_table (fresh : start.Fresh)
    (legible : start.store.recordAt.Legible) (run : Run allowed start reports sys)
    (listed : sys.store.catalog.file file.table = .ok file)
    (alone : sys.store.Alone txn file.table)
    (room : file.pageCount sys.store.disk ≤ sys.store.capacity)
    (scans : Plan.scanOf sys.store.catalog file.table label txn mode = .ok child)
    {closed opened : (Plan.insert child txn file.table).State} {s : Store}
    (opens : (Plan.insert child txn file.table).start (sys.store, closed) = .ok () (s, opened)) :
    Plan.insertOf sys.store.catalog child txn file.table =
        .ok (Plan.insert child txn file.table) ∧
      (∀ taken ended, Takes child.next (Store.insert txn file.table) (s, Prod.snd opened) taken
        ended → taken.length < child.supply (Prod.snd opened) s) ∧
      ∃ rows, sys.store.shownAt.Lists (fun record => record.page.table = file.table) rows ∧
        Copied file sys.store rows ((Plan.insert child txn file.table).next (s, opened)) := by
  have rooted := run.rooted fresh
  have sole : Sole txn file sys.store := ⟨alone, (run.steady fresh).coherent, rooted.grounded,
    rooted.fits, run.legible fresh legible, listed⟩
  have made := insertOf_of_scanOf scans
  obtain ⟨file', schema, listed', rfl⟩ := scanOf_eq_ok scans
  obtain rfl : file' = file := Except.ok.inj (listed'.symm.trans listed)
  have below := (Plan.scan file' schema txn mode).endsBelow_insert sole.coherent sole.fits txn
    file'.table
  obtain ⟨progress, cursor⟩ := closed
  cases opens
  obtain ⟨rows, all, lists⟩ := sole.exists_lists room
  exact ⟨made, fun taken ended takes => below.lt_supply takes, rows, all,
    sole.copied room lists schema mode⟩

/-- The statement above for a table whose first page is free, and whose second page is full. -/
theorem insertion_copies_scanned_table_of_freed_page :
    let table := smallFile.table
    let sys := small.acts [.begin, .demand 0 (.insert table ⟨[.int 5], none⟩), .advance 0,
      .demand 0 (.insert table ⟨[.int 6], none⟩), .advance 0, .advance 0, .commit 0, .begin,
      .demand 1 (.delete ⟨[.int 5], some ⟨⟨table, 0⟩, 0⟩⟩), .advance 1, .commit 1, .begin]
    let child : Plan := .scan smallFile smallFile.schema 2 .shared
    let plan : Plan := .insert child 2 table
    let opened : plan.State := (Progress.running, (some ⟨0, []⟩ : Option Cursor))
    let rows : List Row := [⟨[.int 6], some ⟨⟨table, 1⟩, 0⟩⟩]
    sys.store.HalfFree smallFile ∧
      plan.start (sys.store, plan.initial) = .ok () (sys.store, opened) ∧
      ∃ copies after left,
        plan.next (sys.store, opened) = .ok (some (.ofFields [.int 1])) (after, left) ∧
        Copies smallFile sys.store rows copies after ∧
        smallFile.pageCount after.disk = smallFile.pageCount sys.store.disk := by
  intro table sys child plan opened rows
  have listed : sys.store.catalog.file table = .ok smallFile := by decide +kernel
  have scans : Plan.scanOf sys.store.catalog table none 2 .shared = .ok child := by
    rw [Plan.scanOf, listed]
    rfl
  have run : Run (fun _ _ => True) small _ sys := run_acts small fun _ _ _ => trivial
  have nobody : sys.store.locks.pages.entries = [] := by decide +kernel
  have clean : ∀ entry ∈ sys.store.cache.entries, entry.2.page.isDirty = false := by decide +kernel
  have half : sys.store.HalfFree smallFile := by
    unfold HalfFree
    decide +kernel
  obtain ⟨-, -, found, lists, copied⟩ := insertion_copies_scanned_table small_fresh
    (legible_of_empty (s := small.store) small_fresh.catalog fun _ => rfl)
    run listed (alone_of_idle nobody clean) (by decide +kernel) scans
    (rfl : plan.start (sys.store, plan.initial) = _)
  obtain ⟨_, scanned⟩ : ∃ later, scanAll 2 table .shared sys.store = .ok rows later :=
    Op.exists_of_answer_ok (by decide +kernel)
  obtain rfl := lists.unique (scan_lists_shown (run.steady small_fresh).coherent scanned)
  refine ⟨half, rfl, ?_⟩
  change Copied smallFile sys.store rows (plan.next (sys.store, opened)) at copied
  generalize plan.next (sys.store, opened) = result at copied ⊢
  cases copied with
  | once _ copied pages counts =>
    cases Row.counts_iff.1 counts
    exact ⟨_, _, _, rfl, copied, pages⟩
  | again full => exact absurd half full
  | exhausted full => exact absurd half full

/-- The small system with a cache of three pages. -/
def roomy : System := { small with store := { small.store with capacity := 3 } }

/-- A row of a table of one full page is copied again and again until the cache is full, although
the cache has room for twice the table and a page. -/
theorem full_scanned_table_is_copied_again :
    let table := smallFile.table
    let sys := roomy.acts [.begin, .demand 0 (.insert table ⟨[.int 5], none⟩), .advance 0,
      .commit 0, .begin]
    let plan : Plan := .insert (.scan smallFile smallFile.schema 1 .shared) 1 table
    let opened : plan.State := (Progress.running, (some ⟨0, []⟩ : Option Cursor))
    roomy.Fresh ∧ sys.store.Alone 1 table ∧
      2 * smallFile.pageCount sys.store.disk + 1 ≤ sys.store.capacity ∧
      Op.answer (scanAll 1 table .shared sys.store) = .ok [⟨[.int 5], some ⟨⟨table, 0⟩, 0⟩⟩] ∧
      plan.start (sys.store, plan.initial) = .ok () (sys.store, opened) ∧
      Op.answer (forget (plan.next (sys.store, opened))) =
        .error (.failed (.cacheExhausted 3)) := by
  intro table sys plan opened
  have fresh : roomy.Fresh := ⟨small_fresh.catalog, nofun, rfl, rfl, rfl⟩
  have nobody : sys.store.locks.pages.entries = [] := by decide +kernel
  have clean : ∀ entry ∈ sys.store.cache.entries, entry.2.page.isDirty = false := by decide +kernel
  exact ⟨fresh, alone_of_idle nobody clean, by decide +kernel, by decide +kernel, rfl,
    by decide +kernel⟩

end System

end PageStore
