import PageStore.Proofs.Query.Growth
import PageStore.Proofs.Query.Batches
import PageStore.Proofs.Query.Sweep
import PageStore.Proofs.Schedule.Held
import PageStore.Proofs.Schedule.Owned
import PageStore.Proofs.Schedule.Slotted.Room

/-!
# Deleting what is being scanned

A deletion of the rows of a scan deletes each row before the scan gives the next, so it changes the
pages of the table while the scan goes through them.  The rows of a page are taken when the scan
turns it, and a deletion changes the page of its own row alone, which the scan has turned.  So what
the scan still has to give is as it was when the scan was opened (`Emptying`), and in the end each
row of the table was given once, and was deleted.

The pages that were turned are held and stay cached, so that a scan of what is left needs nothing
else.
-/

namespace PageStore

/-- The changes that delete rows. -/
def removals (rows : List Row) : List Change :=
  rows.filterMap fun row => row.record.map (⟨·, none⟩)

namespace Contents

variable {contents : Contents} {rows : List Row} {record : RecordId}

/-- Deleting rows leaves the records of others as they were. -/
theorem apply_removals_of_not_mem (others : ∀ row ∈ rows, row.record ≠ some record) :
    contents.apply (removals rows) record = contents record := by
  refine contents.apply_of_not_mem fun change mem same => ?_
  obtain ⟨row, here, made⟩ := List.mem_filterMap.1 mem
  obtain ⟨own, held, rfl⟩ := Option.map_eq_some_iff.1 made
  exact others row here (held.trans (congrArg some same))

/-- A record holds nothing once it was changed, if every change leaves nothing. -/
theorem apply_of_none {changes : List Change} (none : ∀ change ∈ changes, change.row = none)
    {change : Change} (mem : change ∈ changes) :
    contents.apply changes change.record = .ok .none := by
  induction changes generalizing contents change with
  | nil => cases mem
  | cons first changes ih =>
    have rest (other : Change) (there : other ∈ changes) :
        (contents.change first).apply changes other.record = .ok .none :=
      ih (fun change mem => none change (.tail _ mem)) there
    by_cases again : ∃ other ∈ changes, other.record = change.record
    · obtain ⟨other, there, same⟩ := again
      exact same ▸ rest other there
    · have here : change = first :=
        (List.mem_cons.1 mem).resolve_right fun there => again ⟨change, there, rfl⟩
      have last := (contents.change first).apply_of_not_mem fun other there same =>
        again ⟨other, there, same⟩
      refine last.trans ?_
      rw [Contents.change, if_pos (congrArg Change.record here), none first List.mem_cons_self]

/-- A record holds nothing once its row was deleted. -/
theorem apply_removals_of_mem {row : Row} (mem : row ∈ rows) (held : row.record = some record) :
    contents.apply (removals rows) record = .ok none := by
  have removal : (⟨record, none⟩ : Change) ∈ removals rows :=
    List.mem_filterMap.2 ⟨row, mem, by rw [held]; rfl⟩
  refine apply_of_none (fun change mem => ?_) removal
  obtain ⟨row, -, made⟩ := List.mem_filterMap.1 mem
  obtain ⟨_, -, rfl⟩ := Option.map_eq_some_iff.1 made
  rfl

end Contents

namespace Store

variable {s t after : Store} {txn : TxnId} {mode : LockMode} {file : HeapFile} {table : TableId}
  {given rows : List Row} {row : Row} {place : Cursor}

/-! ## One deletion -/

/-- A row that is deleted was in a record, whose page was fetched and then rewritten. -/
theorem rewrites_of_delete (coherent : s.Coherent) (deletes : delete txn row s = .ok () after) :
    ∃ record frame fetched, row.record = some record ∧
      fetch txn record.page .exclusive s = .ok frame fetched ∧
      Rewrites txn record none fetched after := by
  rcases row with ⟨fields, held⟩
  cases held with
  | none => cases deletes
  | some record =>
    obtain ⟨file, opened, opens, goesOn⟩ := Op.bind_eq_ok.1 deletes
    obtain ⟨rfl, listed⟩ := (fileOf_leads s record.page.table).of_ok opens
    have own : opened.catalog.file file.table = .ok file := by
      rw [(coherent.catalog _ _ listed).1, listed]
    obtain ⟨refs, freed, changes, hands⟩ := Op.bind_eq_ok.1 goesOn
    have handed := (deleteFrom_hands coherent own txn _).of_ok changes
    obtain ⟨_, checked, checks, changed⟩ := Op.bind_eq_ok.1 changes
    obtain ⟨rfl, -⟩ := (checkRecord_leads opened file record).of_ok checks
    obtain ⟨ref, _, frees, ends⟩ := Op.bind_eq_ok.1 changed
    cases ends
    cases handed.symm.trans hands
    obtain ⟨frame, fetched, fetches, goesOn⟩ := Op.bind_eq_ok.1 frees
    obtain ⟨_, _, clears, ends⟩ := Op.bind_eq_ok.1 goesOn
    cases ends
    obtain ⟨turns, opened⟩ := (fetch_opens coherent txn record.page).of_ok fetches
    have listed : fetched.catalog.file record.page.table = .ok file := by
      rw [turns.catalog, listed]
    exact ⟨record, frame, fetched, rfl, fetches,
      ((freeRecord_leads listed opened record).of_ok clears).1⟩

/-! ## Pages that a transaction retains -/

/-- A transaction holds the first pages of a table in some mode, or exclusively, and they are
cached. -/
def Retains (txn : TxnId) (mode : LockMode) (file : HeapFile) (number : Nat) (s : Store) : Prop :=
  ∀ n < number, (∃ frame, s.cache.get? ⟨file.table, n⟩ = some frame) ∧
    (s.locks.mode? txn ⟨file.table, n⟩ = some mode ∨
      s.locks.mode? txn ⟨file.table, n⟩ = some .exclusive)

/-- What a transaction retains it retains when it fetches a page. -/
theorem Retains.fetched {number : Nat} {page : PageId} {asked : LockMode} {frame : Frame}
    (retains : t.Retains txn mode file number)
    (fetched : fetch txn page asked t = .ok frame after) :
    after.Retains txn mode file number := by
  intro n before
  obtain ⟨⟨kept, cached⟩, held⟩ := retains n before
  have holds : t.locks.holds txn ⟨file.table, n⟩ = true := by
    rw [LockTable.holds]
    rcases held with held | held <;> rw [held] <;> rfl
  have fetches := ((fetch_leads t txn page asked).of_ok fetched).1
  refine ⟨⟨kept, (fetch_keeps holds cached fetched).1⟩, ?_⟩
  rcases held with same | exclusive
  · exact fetches.locks.mine _ _ same
  · exact .inr (fetches.locks.exclusive exclusive)

/-- The next page is retained once it was fetched. -/
theorem Retains.next {number : Nat} {frame : Frame} (retains : t.Retains txn mode file number)
    (fetched : fetch txn ⟨file.table, number⟩ mode t = .ok frame after) :
    after.Retains txn mode file (number + 1) := by
  obtain ⟨-, cached, held⟩ := (fetch_leads t txn ⟨file.table, number⟩ mode).of_ok fetched
  intro n upTo
  rcases Nat.lt_succ_iff_lt_or_eq.1 upTo with before | rfl
  · exact retains.fetched fetched n before
  · exact ⟨⟨frame, cached⟩, held⟩

theorem Retains.rewrites {number : Nat} {record : RecordId} {held : Option Row}
    (retains : t.Retains txn mode file number) (rewrites : Rewrites txn record held t after) :
    after.Retains txn mode file number := by
  intro n before
  obtain ⟨⟨kept, cached⟩, held⟩ := retains n before
  obtain ⟨written, -, now⟩ := rewrites.get?_eq
  have locks : after.locks = t.locks := by
    cases rewrites
    rfl
  refine ⟨?_, locks ▸ held⟩
  rw [now]
  split
  · exact ⟨written, rfl⟩
  · exact ⟨kept, cached⟩

/-! ## Scanning and deleting -/

/-- A store that was reached from another by deleting the rows that a scan has given.  What the scan
has given and what it has left of its last page are the rows of the pages that it has turned, as
they were in the first store.  These pages could be read, and are retained. -/
structure Emptying (file : HeapFile) (txn : TxnId) (mode : LockMode) (s : Store) (given : List Row)
    (now : Store) (place : Cursor) : Prop where
  coherent : now.Coherent
  consistent : now.locks.Consistent
  catalog : now.catalog = s.catalog
  disk : now.disk = s.disk
  shown : now.shownAt = s.shownAt.apply (removals given)
  lists : s.shownAt.Lists (fun record => record.page.table = file.table ∧
    record.page.number < place.nextPage) (given ++ place.pending)
  read : ∀ record : RecordId, record.page.table = file.table →
    record.page.number < place.nextPage → ∃ row, s.shownAt record = .ok row
  retains : now.Retains txn mode file place.nextPage

/-- A row that a scan has given, or is to give of the pages that it has turned, is in a record of
the table on one of these pages. -/
theorem Emptying.record_of_mem (emptying : Emptying file txn mode s given t place)
    (mem : row ∈ given ++ place.pending) :
    ∃ record, row.record = some record ∧ record.page.table = file.table ∧
      record.page.number < place.nextPage := by
  obtain ⟨records, -, among, holds⟩ := emptying.lists
  obtain ⟨record, here, -, held⟩ := Answer.exists_of_mem holds mem
  exact ⟨record, held, ((among record).1 here).1⟩

/-- Deleting what was given leaves the pages to come as they were. -/
theorem Emptying.shownAt_ahead {number : Nat} {record : RecordId}
    (emptying : Emptying file txn mode s given t ⟨number, []⟩) (ahead : number ≤ record.page.number) :
    t.shownAt record = s.shownAt record := by
  rw [emptying.shown]
  refine Contents.apply_removals_of_not_mem fun row mem same => ?_
  obtain ⟨own, held, _, before⟩ := emptying.record_of_mem (List.mem_append_left ([] : List Row) mem)
  cases same.symm.trans held
  exact Nat.lt_irrefl number (Nat.lt_of_le_of_lt ahead before)

/-- Turning a page: its rows are those that it had at first. -/
theorem Emptying.turn {number : Nat} {frame : Frame}
    (emptying : Emptying file txn mode s given t ⟨number, []⟩)
    (listed : s.catalog.file file.table = .ok file)
    (fetched : fetch txn ⟨file.table, number⟩ mode t = .ok frame after)
    (found : frame.page.rows file.schema = .ok rows) :
    Emptying file txn mode s given after ⟨number + 1, rows⟩ := by
  have fetches := ((fetch_leads t txn ⟨file.table, number⟩ mode).of_ok fetched).1
  have listed : t.catalog.file file.table = .ok file := by rw [emptying.catalog, listed]
  have here {record : RecordId} (own : record.page = ⟨file.table, number⟩) :
      s.shownAt record = t.shownAt record :=
    (emptying.shownAt_ahead (Nat.le_of_eq (congrArg PageId.number own).symm)).symm
  obtain ⟨page, readable⟩ := lists_of_fetch emptying.coherent listed fetched found
  have upTo {record : RecordId} : (record.page.table = file.table ∧ record.page.number < number) ∨
      record.page = ⟨file.table, number⟩ ↔
        record.page.table = file.table ∧ record.page.number < number + 1 := by
    constructor
    · rintro (⟨table, before⟩ | own)
      · exact ⟨table, Nat.lt_succ_of_lt before⟩
      · rw [own]
        exact ⟨rfl, Nat.lt_succ_self number⟩
    · rintro ⟨table, before⟩
      rcases Nat.lt_succ_iff_lt_or_eq.1 before with before | here
      · exact .inl ⟨table, before⟩
      · exact .inr (by rw [← table, ← here])
  have lists := emptying.lists
  rw [List.append_nil] at lists
  refine ⟨emptying.coherent.turnover fetches.toTurnover, fetches.locks.consistent emptying.consistent,
    fetches.catalog.trans emptying.catalog, fetches.disk.trans emptying.disk,
    ((Readies.fetches fetches).shownAt_eq emptying.coherent).trans emptying.shown, ?_,
    fun record table before => ?_, emptying.retains.next fetched⟩
  · refine (lists.append (page.of_eq fun _ => here) fun early late earlier later =>
      .inl ?_).congr fun _ _ _ => upTo
    rw [later]
    exact earlier.2
  · rcases upTo.2 ⟨table, before⟩ with ⟨table, before⟩ | own
    · exact emptying.read record table before
    · obtain ⟨row, held⟩ := readable record.slot
      exact ⟨row, by rw [here own, ← held, ← own]⟩

/-- Deleting a row that was given: its page is one that was turned. -/
theorem Emptying.remove {number : Nat}
    (emptying : Emptying file txn mode s given t ⟨number, row :: rows⟩)
    (deletes : delete txn row t = .ok () after) :
    Emptying file txn mode s (given ++ [row]) after ⟨number, rows⟩ := by
  obtain ⟨record, frame, fetched, held, fetches, rewrites⟩ :=
    rewrites_of_delete emptying.coherent deletes
  have turns := ((fetch_leads t txn record.page .exclusive).of_ok fetches).1
  have readies : Readies txn t fetched := .fetches turns
  have removes : removals (given ++ [row]) = removals given ++ [⟨record, none⟩] := by
    rw [removals, List.filterMap_append, List.filterMap_cons_some (by rw [held]; rfl)]
    rfl
  have shown : after.shownAt = s.shownAt.apply (removals (given ++ [row])) := by
    rw [rewrites.shownAt_eq, readies.shownAt_eq emptying.coherent, emptying.shown, removes,
      Contents.apply_append]
    rfl
  have given' : given ++ row :: rows = given ++ [row] ++ rows := List.append_cons given row rows
  have coherent := (emptying.coherent.readies readies).rewrites rewrites
  have retains := (emptying.retains.fetched fetches).rewrites rewrites
  have consistent := turns.locks.consistent emptying.consistent
  have catalog := turns.catalog.trans emptying.catalog
  have disk := turns.disk.trans emptying.disk
  cases rewrites
  exact ⟨coherent, consistent, catalog, disk, shown, given' ▸ emptying.lists, emptying.read, retains⟩

/-- The pages that were turned hold no rows once these were deleted. -/
theorem Emptying.vacated {number : Nat} {record : RecordId}
    (emptying : Emptying file txn mode s given t ⟨number, []⟩)
    (table : record.page.table = file.table) (before : record.page.number < number) :
    t.shownAt record = .ok none := by
  have lists := emptying.lists
  rw [List.append_nil] at lists
  rw [emptying.shown]
  by_cases deleted : ∃ row ∈ given, row.record = some record
  · obtain ⟨row, mem, own⟩ := deleted
    exact Contents.apply_removals_of_mem mem own
  · rw [Contents.apply_removals_of_not_mem fun row mem own => deleted ⟨row, mem, own⟩]
    obtain ⟨held, shown⟩ := emptying.read record table before
    cases held with
    | none => exact shown
    | some row =>
      obtain ⟨records, -, among, holds⟩ := lists
      have mem := (among record).2 ⟨⟨table, before⟩, row, shown⟩
      obtain ⟨row, listed, -, own⟩ := Answer.exists_of_mem holds.flip mem
      exact absurd ⟨row, listed, own⟩ deleted

/-- While a transaction retains pages of a table that hold no rows, it can read them, and finds
none. -/
theorem Retains.readPages {pages number : Nat} {contents : Contents}
    (retains : t.Retains txn mode file (number + pages)) (shown : t.Shown contents file)
    (consistent : t.locks.Consistent)
    (vacated : ∀ record : RecordId, record.page.table = file.table →
      record.page.number < number + pages → contents record = .ok none) :
    ∃ after, Store.readPages file txn mode pages number t = .ok [] after := by
  induction pages generalizing t number with
  | zero => exact ⟨t, rfl⟩
  | succ pages ih =>
    obtain ⟨⟨frame, cached⟩, held⟩ := retains number (by omega)
    obtain ⟨locks, fetched⟩ := fetch_of_held consistent held cached
    obtain ⟨later, id, shows⟩ := gives_of_shown contents file txn mode t number _ _ shown fetched
    have empty : frame.page.rows file.schema = .ok [] := Page.rows_of_vacant fun slot => by
      rw [shows slot, id]
      exact vacated _ rfl (by show number < _; omega)
    have next : number + (pages + 1) = number + 1 + pages := by omega
    have fetches := ((fetch_leads t txn _ mode).of_ok fetched).1
    obtain ⟨after, rest⟩ := ih (next ▸ retains.fetched fetched) later
      (fetches.locks.consistent consistent) (next ▸ vacated)
    refine ⟨after, (Op.bind_ok fetched).trans ?_⟩
    rw [empty]
    exact Op.bind_ok rest

end Store

open Store Plan Turn

namespace System

variable {start sys : System} {reports : List Report} {allowed : System → Action → Prop}
  {txn : TxnId} {table : TableId} {label : Option String} {mode : LockMode} {child : Plan}

end System

end PageStore
