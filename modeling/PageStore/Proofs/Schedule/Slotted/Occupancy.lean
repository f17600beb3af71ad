import Mathlib.Data.List.Nodup
import PageStore.Proofs.Schedule.Slotted.Sole

/-!
# How many rows the first pages of a table hold

An insertion puts its row into the first free slot.  So what decides where the row goes is how many
of the slots of the first pages hold rows (`HeapFile.occupancy`), for each number of pages.  A row
that is added makes this one more for the pages up to its own and leaves it as it is for the pages
before (`HeapFile.occupancy_change`); and while the first pages hold fewer rows than they have
slots, the row goes to one of them (`SlotTable.Adds.lt_of_occupancy`).
-/

namespace PageStore

/-! ## The records of the first pages -/

namespace HeapFile

variable {file : HeapFile} {number pages : Nat} {record : RecordId}

/-- The records of the slots of a page. -/
def recordsOf (file : HeapFile) (number : Nat) : List RecordId :=
  (List.range file.slots).map (⟨⟨file.table, number⟩, ·⟩)

/-- The records of the slots of the first pages. -/
def records (file : HeapFile) (pages : Nat) : List RecordId :=
  (List.range pages).flatMap file.recordsOf

theorem mem_recordsOf :
    record ∈ file.recordsOf number ↔
      record.page = ⟨file.table, number⟩ ∧ record.slot < file.slots := by
  obtain ⟨page, slot⟩ := record
  simp only [recordsOf, List.mem_map, List.mem_range]
  constructor
  · rintro ⟨_, lt, same⟩
    cases same
    exact ⟨rfl, lt⟩
  · rintro ⟨rfl, lt⟩
    exact ⟨slot, lt, rfl⟩

theorem mem_records :
    record ∈ file.records pages ↔
      record.page.table = file.table ∧ record.page.number < pages ∧ record.slot < file.slots := by
  obtain ⟨⟨table, number⟩, slot⟩ := record
  simp only [records, List.mem_flatMap, List.mem_range, mem_recordsOf]
  constructor
  · rintro ⟨_, lt, same, inside⟩
    cases same
    exact ⟨rfl, lt, inside⟩
  · rintro ⟨rfl, lt, inside⟩
    exact ⟨number, lt, rfl, inside⟩

theorem records_succ (file : HeapFile) (pages : Nat) :
    file.records (pages + 1) = file.records pages ++ file.recordsOf pages := by
  rw [records, List.range_succ, List.flatMap_append, List.flatMap_singleton]
  rfl

theorem length_records (file : HeapFile) (pages : Nat) :
    (file.records pages).length = pages * file.slots := by
  simp [records, recordsOf, List.length_flatMap]

theorem nodup_recordsOf (file : HeapFile) (number : Nat) : (file.recordsOf number).Nodup :=
  List.nodup_range.map fun _ _ same => congrArg RecordId.slot same

theorem nodup_records (file : HeapFile) (pages : Nat) : (file.records pages).Nodup := by
  refine List.nodup_flatMap.2 ⟨fun number _ => nodup_recordsOf file number, ?_⟩
  refine List.nodup_range.imp fun apart record first second => apart ?_
  have same := (mem_recordsOf.1 first).1.symm.trans (mem_recordsOf.1 second).1
  exact congrArg PageId.number same

end HeapFile

/-! ## Records that hold rows -/

namespace Contents

variable {contents : Contents} {among : RecordId → Prop} {rows : List Row} {records : List RecordId}
  {record : RecordId}

/-- Whether a record holds a row. -/
def holds (contents : Contents) (record : RecordId) : Bool :=
  match contents record with
  | .ok (some _) => true
  | _ => false

theorem holds_iff : contents.holds record = true ↔ ∃ row, contents record = .ok (some row) := by
  unfold holds
  split <;> simp_all

theorem holds_of_none (none : contents record = .ok none) : contents.holds record = false := by
  rw [holds, none]

/-- As many rows are listed as records hold one. -/
theorem Lists.length_eq (lists : contents.Lists among rows) (nodup : records.Nodup)
    (same : ∀ record row, contents record = .ok (some row) → (among record ↔ record ∈ records)) :
    rows.length = records.countP contents.holds := by
  obtain ⟨listed, sorted, mem, holds⟩ := lists
  have distinct : listed.Nodup := sorted.imp fun precedes same => (same ▸ precedes).irrefl
  have perm : listed.Perm (records.filter contents.holds) := by
    refine (List.perm_ext_iff_of_nodup distinct (nodup.filter _)).2 fun record => ?_
    rw [mem, List.mem_filter, holds_iff]
    refine and_congr_left ?_
    rintro ⟨row, held⟩
    exact same record row held
  rw [← holds.length_eq, perm.length_eq, List.countP_eq_length_filter]

/-- A row in a record that held none is one more. -/
theorem countP_change (free : contents record = .ok none) (row : Row) (records : List RecordId) :
    records.countP (contents.change ⟨record, some row⟩).holds =
      records.countP contents.holds + records.count record := by
  induction records with
  | nil => rfl
  | cons first records ih =>
    have here : (if (contents.change ⟨record, some row⟩).holds first then 1 else 0) =
        (if contents.holds first then 1 else 0) + if first == record then 1 else 0 := by
      rcases eq_or_ne first record with rfl | apart
      · simp [holds, Contents.change, free]
      · have same : (contents.change ⟨record, some row⟩).holds first = contents.holds first := by
          rw [holds, Contents.change, if_neg apart, holds]
        simp [same, apart]
    rw [List.countP_cons, List.countP_cons, List.count_cons, ih, here]
    omega

end Contents

namespace HeapFile

variable {file : HeapFile} {contents : Contents} {pages : Nat} {record : RecordId}

/-- How many rows the first pages of a table hold. -/
def occupancy (file : HeapFile) (contents : Contents) (pages : Nat) : Nat :=
  (file.records pages).countP contents.holds

theorem occupancy_succ (file : HeapFile) (contents : Contents) (pages : Nat) :
    file.occupancy contents (pages + 1) =
      file.occupancy contents pages + (file.recordsOf pages).countP contents.holds := by
  rw [occupancy, records_succ, List.countP_append, occupancy]

theorem occupancy_le (file : HeapFile) (contents : Contents) (pages : Nat) :
    file.occupancy contents pages ≤ pages * file.slots :=
  length_records file pages ▸ List.countP_le_length

/-- A row that is added to a free slot is one more for the pages up to its own. -/
theorem occupancy_change (own : record.page.table = file.table) (slot : record.slot < file.slots)
    (free : contents record = .ok none) (row : Row) (pages : Nat) :
    file.occupancy (contents.change ⟨record, some row⟩) pages =
      file.occupancy contents pages + if record.page.number < pages then 1 else 0 := by
  rw [occupancy, Contents.countP_change free, occupancy]
  refine congrArg _ ?_
  split
  · next inside =>
    exact List.count_eq_one_of_mem (nodup_records file pages) (mem_records.2 ⟨own, inside, slot⟩)
  · next outside =>
    exact List.count_eq_zero.2 fun mem => outside (mem_records.1 mem).2.1

/-- Of fewer rows than slots one slot holds none. -/
theorem exists_free_of_occupancy (few : file.occupancy contents pages < pages * file.slots) :
    ∃ record ∈ file.records pages, contents.holds record = false := by
  by_contra all
  push Not at all
  have every : file.occupancy contents pages = (file.records pages).length :=
    List.countP_eq_length.2 fun record mem => by
      simpa using all record mem
  rw [every, length_records] at few
  exact Nat.lt_irrefl _ few

end HeapFile

/-! ## Adding a row -/

namespace SlotTable

variable {file : HeapFile} {table next : SlotTable} {row : Row} {record : RecordId} {pages : Nat}

/-- What a table becomes by a row that is put into its first free slot, which is in one of the pages
or is the first of one more. -/
structure Adds (file : HeapFile) (table : SlotTable) (row : Row) (record : RecordId)
    (next : SlotTable) : Prop where
  own : record.page.table = file.table
  slot : record.slot < file.slots
  page : record.page.number ≤ table.pages
  free : table.contents record = .ok none
  before : ∀ other, other.page.table = file.table → other.slot < file.slots →
    other.Precedes record → table.IsUsed other
  pages : next.pages = max table.pages (record.page.number + 1)
  contents : next.contents = table.contents.change ⟨record, some (row.storedAt record)⟩

/-- While the first pages hold fewer rows than they have slots, a row goes to one of them. -/
theorem Adds.lt_of_occupancy (adds : Adds file table row record next)
    (few : file.occupancy table.contents pages < pages * file.slots) :
    record.page.number < pages := by
  obtain ⟨other, mem, free⟩ := HeapFile.exists_free_of_occupancy few
  obtain ⟨own, inside, slot⟩ := HeapFile.mem_records.1 mem
  by_contra beyond
  have used := adds.before other own slot (.inl (by omega))
  rw [Contents.holds_iff.2 used] at free
  cases free

/-- A row that is added is one more row for the pages up to its own. -/
theorem Adds.occupancy_eq (adds : Adds file table row record next) (pages : Nat) :
    file.occupancy next.contents pages =
      file.occupancy table.contents pages + if record.page.number < pages then 1 else 0 := by
  rw [adds.contents]
  exact HeapFile.occupancy_change adds.own adds.slot adds.free _ pages

/-- What a scan answers is listed. -/
theorem Step.exists_lists {mode : LockMode} {answer : Except Stop (List Row)}
    (step : table.Step file (.scan mode) answer next) :
    ∃ rows, table.contents.Lists (table.Slot file) rows := by
  cases step with
  | lists lists => exact ⟨_, lists⟩

/-- A table of slots refuses to insert only rows that do not fit. -/
theorem Step.misfits_of_error {stop : Stop}
    (step : table.Step file (.insert row) (.error stop) next) : row.fits file.schema = false := by
  cases step with
  | misfits misfits => exact misfits

end SlotTable

namespace Store

variable {s after : Store} {txn : TxnId} {file : HeapFile} {mode : LockMode} {number : Nat}
  {frame : Frame} {row : Row} {rows : List Row} {next : SlotTable}

/-- An insertion that succeeds has added its row. -/
theorem Sole.adds (sole : Sole txn file s)
    (step : (s.slotTable file).Step file (.insert row) (.ok rows) next) :
    ∃ record, (s.slotTable file).Adds file row record next := by
  have positive := (sole.coherent.catalog _ _ sole.listed).2.slots_pos
  cases step with
  | @inserts _ record fits first =>
    have inside := first.slot.page
    refine ⟨record, first.slot.own, first.slot.slot, Nat.le_of_lt inside, first.free,
      fun other own slot precedes => first.before other ⟨own, ?_, slot⟩ precedes,
      (Nat.max_eq_left inside).symm, rfl⟩
    rcases precedes with sooner | ⟨same, -⟩
    · exact Nat.lt_trans sooner inside
    · exact same ▸ inside
  | appends fits full =>
    refine ⟨(s.slotTable file).nextSlot file, rfl, positive, Nat.le_refl _, sole.shownAt_next 0,
      fun other own slot precedes => full other ⟨own, ?_, slot⟩,
      (Nat.max_eq_right (Nat.le_succ _)).symm, rfl⟩
    exact precedes.resolve_right fun ⟨_, below⟩ => Nat.not_lt_zero _ below

/-- What was read of a page that was turned are the rows that its records showed. -/
theorem Turned.lists (turned : Turned txn file mode number s frame after)
    (found : frame.page.rows file.schema = .ok rows) :
    s.shownAt.Lists (· ∈ file.recordsOf number) rows := by
  have lists := Page.lists found fun slot => (turned.shows slot).trans (by rw [turned.id])
  refine lists.congr fun ⟨place, slot⟩ row held => ?_
  rw [turned.id, HeapFile.mem_recordsOf]
  refine (and_iff_left_of_imp ?_).symm
  rintro (rfl : place = ⟨file.table, number⟩)
  have used := (Page.row?_eq_some_iff.1 ((turned.shows slot).trans held)).1
  exact turned.slots ▸ Page.lt_slots_of_isUsed used

end Store

end PageStore
