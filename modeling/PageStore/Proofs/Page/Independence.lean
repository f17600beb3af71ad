import Mathlib.Data.List.Nodup
import PageStore.Proofs.Page.Cells
import PageStore.Store.Kept

/-!
# Slots as independent cells

A page with a schema is a header and a row of cells, whatever its bytes are.  A row goes to the lowest
free slot if there is a free slot, and a delete frees a slot that is used
(`exists_insert_iff`, `exists_delete_iff`).  Either is confined to its slot, and so spares the rest of
the page: what the other slots hold, be it a row or bytes that are none, the bytes of free slots, the
bits of the header that belong to no slot, and the bytes after the last slot (`Confined.spares`).

One slot is used then that was free, or the other way round, so there is one free slot less or one
more (`length_freeSlots_of_fills`).
-/

namespace PageStore

namespace Page

variable {page after : Page} {schema : Schema} {slot : Nat} {row : Row} {record : RecordId}

/-! ## The rest of a page -/

/-- A page after a change that spared everything but one slot: who dirtied the page and its bytes from
before, what the other slots hold, the bits of the header that belong to no slot, the bytes of the
other slots, used or free, and the bytes after the last slot. -/
structure Spares (page after : Page) (schema : Schema) (slot : Nat) : Prop where
  same : after = { page with bytes := after.bytes }
  length : after.bytes.length = page.bytes.length
  used : ∀ other, other ≠ slot → after.isUsed schema other = page.isUsed schema other
  rows : ∀ other, other ≠ slot → after.row? schema other = page.row? schema other
  bits : ∀ bit, page.slots schema ≤ bit → bit < headerSize (page.slots schema) * 8 →
    headerBit after.bytes bit = headerBit page.bytes bit
  cells : ∀ other, other ≠ slot → other < page.slots schema →
    after.bytes.slice (page.start schema other) schema.width =
      page.bytes.slice (page.start schema other) schema.width
  rest : after.bytes.drop (page.start schema (page.slots schema)) =
    page.bytes.drop (page.start schema (page.slots schema))

/-- What is confined to a slot that a page has spares the rest of the page. -/
theorem Confined.spares (confined : page.Confined after schema slot)
    (lt : slot < page.slots schema) : page.Spares after schema slot where
  same := confined.same
  length := confined.length
  used _ ne := confined.isUsed ne
  rows _ ne := confined.row? ne
  bits bit none inside :=
    confined.bits bit (by omega) ((Nat.div_lt_iff_lt_mul (by decide)).2 inside)
  cells other ne _ :=
    confined.stretches _ _ (headerSize_le_start page schema other) (start_disjoint ne)
  rest := by
    have kept := confined.stretches (page.start schema (page.slots schema)) page.bytes.length
      (headerSize_le_start page schema _) (.inr (start_add_width_le lt))
    rwa [Bytes.slice_of_length_le (by rw [confined.length]; exact Nat.le_add_left _ _),
      Bytes.slice_of_length_le (Nat.le_add_left _ _)] at kept

/-! ## Free slots -/

theorem mem_freeSlots_iff :
    slot ∈ page.freeSlots schema ↔ slot < page.slots schema ∧ page.isUsed schema slot = false := by
  rw [freeSlots, List.mem_filter, List.mem_range, isUsed]
  refine and_congr_right fun lt => ?_
  rw [decide_eq_true lt, Bool.true_and, Bool.not_eq_true']

theorem nodup_freeSlots (page : Page) (schema : Schema) : (page.freeSlots schema).Nodup :=
  List.nodup_range.filter _

/-- A page of which one more slot is used has one free slot less. -/
theorem length_freeSlots_of_fills (length : after.bytes.length = page.bytes.length)
    (free : page.isUsed schema slot = false) (used : after.isUsed schema slot = true)
    (others : ∀ other, other ≠ slot → after.isUsed schema other = page.isUsed schema other) :
    (page.freeSlots schema).length = (after.freeSlots schema).length + 1 := by
  have slots := slots_eq_of_length length schema
  have lt : slot < page.slots schema := slots ▸ lt_slots_of_isUsed used
  have freed : (page.freeSlots schema).Perm (slot :: after.freeSlots schema) := by
    have new : slot ∉ after.freeSlots schema := fun mem => by
      rw [(mem_freeSlots_iff.1 mem).2] at used
      cases used
    refine (List.perm_ext_iff_of_nodup (nodup_freeSlots page schema)
      (List.nodup_cons.2 ⟨new, nodup_freeSlots after schema⟩)).2 fun other => ?_
    rw [List.mem_cons, mem_freeSlots_iff, mem_freeSlots_iff, slots]
    by_cases same : other = slot
    · subst same
      exact iff_of_true ⟨lt, free⟩ (.inl rfl)
    · rw [others other same, or_iff_right same]
  rw [freed.length_eq, List.length_cons]

/-! ## Inserts and deletes -/

theorem exists_insert_iff (fits : row.fits schema = true) :
    (∃ after record, page.insert schema row = .ok (after, record)) ↔
      ∃ slot, slot < page.slots schema ∧ page.isUsed schema slot = false := by
  rw [← firstFree?_isSome_iff, Option.isSome_iff_exists]
  constructor
  · rintro ⟨after, record, ok⟩
    exact ⟨record.slot, (insert_eq_ok_iff.1 ok).2.1⟩
  · rintro ⟨slot, first⟩
    exact ⟨_, ⟨page.id, slot⟩, insert_eq_ok_iff.2 ⟨fits, first, rfl, rfl⟩⟩

theorem exists_delete_iff :
    (∃ after, page.delete schema record = .ok after) ↔
      record.page = page.id ∧ page.isUsed schema record.slot = true := by
  constructor
  · rintro ⟨after, ok⟩
    obtain ⟨here, used, -⟩ := delete_eq_ok_iff.1 ok
    exact ⟨here, used⟩
  · rintro ⟨here, used⟩
    exact ⟨_, delete_eq_ok_iff.2 ⟨here, used, rfl⟩⟩

/-- A page after an insert of a row: the lowest free slot holds the stored part of the row. -/
structure Inserted (page after : Page) (schema : Schema) (row : Row) (record : RecordId) :
    Prop where
  here : record.page = page.id
  inside : record.slot < page.slots schema
  free : page.isUsed schema record.slot = false
  lowest : ∀ earlier, earlier < record.slot → page.isUsed schema earlier = true
  used : after.isUsed schema record.slot = true
  stored : after.row? schema record.slot =
    .ok (some ⟨row.fields.map Field.stored, some record⟩)
  fewer : (page.freeSlots schema).length = (after.freeSlots schema).length + 1
  spares : page.Spares after schema record.slot

/-- A page after a delete: the slot of the record is free. -/
structure Deleted (page after : Page) (schema : Schema) (record : RecordId) : Prop where
  freed : after.isUsed schema record.slot = false
  empty : after.row? schema record.slot = .ok none
  more : (after.freeSlots schema).length = (page.freeSlots schema).length + 1
  spares : page.Spares after schema record.slot

theorem inserted_of_insert (ok : page.insert schema row = .ok (after, record)) :
    page.Inserted after schema row record := by
  obtain ⟨fits, first, here, rfl⟩ := insert_eq_ok_iff.1 ok
  obtain ⟨inside, free, lowest⟩ := firstFree?_eq_some first
  have confined := store_confined inside fits
  have used : (page.store schema record.slot row).isUsed schema record.slot = true := by
    rw [isUsed, slots_eq_of_length confined.length, headerBit_store inside fits (header_before inside),
      decide_eq_true inside, decide_eq_true rfl, Bool.or_true, Bool.true_and]
  exact
    { here
      inside
      free
      lowest
      used
      stored := (insert_changes ok).2.changed
      fewer := length_freeSlots_of_fills confined.length free used fun _ => confined.isUsed
      spares := confined.spares inside }

theorem deleted_of_delete (ok : page.delete schema record = .ok after) :
    page.Deleted after schema record := by
  obtain ⟨here, used, rfl⟩ := delete_eq_ok_iff.1 ok
  have confined := clearBit_confined used
  have freed : Page.isUsed { page with bytes := clearBit page.bytes record.slot } schema
      record.slot = false := by
    rw [isUsed, headerBit_clearBit_self used, Bool.and_false]
  exact
    { freed
      empty := row?_of_unused freed
      more := length_freeSlots_of_fills confined.length.symm freed used
        fun _ ne => (confined.isUsed ne).symm
      spares := confined.spares (lt_slots_of_isUsed used) }

end Page

/-! ## Changes that fail -/

/-- A store that stays as it is when a loaded page refuses a row, for want of a free slot or for the
row's types, or refuses to delete a record. -/
structure Store.Withstands (s : Store) (page : Page) (file : HeapFile) : Prop where
  storeRow : ∀ txn serial row error, page.insert file.schema row = .error error →
    storeRow file txn ⟨serial, page⟩ row s = .ok none s ∨
      storeRow file txn ⟨serial, page⟩ row s = .error (.failed error) s
  insertRef : ∀ txn ref row error, s.deref? ref = some page →
    s.catalog.file page.id.table = .ok file → page.insert file.schema row = .error error →
      insertRef ref txn row s = .error (.failed error) s
  freeRecord : ∀ txn serial record error, page.delete file.schema record = .error error →
    freeRecord file txn ⟨serial, page⟩ record s = .error (.failed error) s

theorem Store.withstands (s : Store) (page : Page) (file : HeapFile) : s.Withstands page file where
  storeRow txn serial row error failed := by
    unfold Store.storeRow
    rw [failed]
    cases page.firstFree? file.schema with
    | none => exact .inl rfl
    | some => exact .inr rfl
  insertRef txn ref row error loaded listed failed := by
    unfold Store.insertRef
    rw [loaded]
    simp only [listed, bind, Except.bind, failed]
  freeRecord txn serial record error failed := by
    unfold Store.freeRecord
    rw [failed]

/-- Whatever the bytes of a page are, a row of a schema is inserted exactly if a slot is free, and then
into the lowest free slot, and a record is deleted exactly if its slot on this page is used.  Either
changes one slot and spares the rest of the page, and one that fails leaves the page as it is. -/
theorem Page.slots_are_independent_cells (page : Page) (schema : Schema) :
    (∀ row : Row, row.fits schema = true →
      ((∃ after record, page.insert schema row = .ok (after, record)) ↔
        ∃ slot, slot < page.slots schema ∧ page.isUsed schema slot = false) ∧
      ∀ after record, page.insert schema row = .ok (after, record) →
        page.Inserted after schema row record) ∧
    (∀ record : RecordId,
      ((∃ after, page.delete schema record = .ok after) ↔
        record.page = page.id ∧ page.isUsed schema record.slot = true) ∧
      ∀ after, page.delete schema record = .ok after → page.Deleted after schema record) ∧
    ∀ (s : Store) (file : HeapFile), s.Withstands page file :=
  ⟨fun _ fits => ⟨exists_insert_iff fits, fun _ _ => inserted_of_insert⟩,
    fun _ => ⟨exists_delete_iff, fun _ => deleted_of_delete⟩,
    fun s file => s.withstands page file⟩

/-- The statement above for a page of arbitrary bytes with three slots, of which the middle one is
free, and five bits of the header that belong to no slot and are set. -/
theorem Page.slots_are_independent_cells_of_stray_bits :
    let page : Page := .ofStored ⟨0, 0⟩
      [0b11111101, 1, 2, 3, 4, 5, 6, 7, 8, 9, 10, 11, 12, 13, 14, 15]
    let schema := Schema.ofTypes [.int] []
    let row : Row := .ofFields [.int 7]
    let filled : Page := { page with
      bytes := [0b11111111, 1, 2, 3, 4, 0, 0, 0, 7, 9, 10, 11, 12, 13, 14, 15] }
    let emptied : Page := { page with
      bytes := [0b11111001, 1, 2, 3, 4, 5, 6, 7, 8, 9, 10, 11, 12, 13, 14, 15] }
    (row.fits schema = true ∧ page.slots schema = 3) ∧
      page.insert schema row = .ok (filled, ⟨⟨0, 0⟩, 1⟩) ∧
      page.Inserted filled schema row ⟨⟨0, 0⟩, 1⟩ ∧
      page.delete schema ⟨⟨0, 0⟩, 2⟩ = .ok emptied ∧
      page.Deleted emptied schema ⟨⟨0, 0⟩, 2⟩ ∧
      (¬ ∃ after, page.delete schema ⟨⟨0, 0⟩, 3⟩ = .ok after) ∧
      Store.freeRecord ⟨0, "", schema, 16⟩ 0 ⟨0, page⟩ ⟨⟨0, 0⟩, 3⟩ default =
        .error (.failed (.slotEmpty 3 ⟨0, 0⟩)) default := by
  intro page schema row filled emptied
  have fits : row.fits schema = true := by decide
  have inserts : page.insert schema row = .ok (filled, ⟨⟨0, 0⟩, 1⟩) := by decide +kernel
  have deletes : page.delete schema ⟨⟨0, 0⟩, 2⟩ = .ok emptied := by decide +kernel
  have refuses : page.delete schema ⟨⟨0, 0⟩, 3⟩ = .error (.slotEmpty 3 ⟨0, 0⟩) := by
    decide +kernel
  obtain ⟨inserting, deleting, failing⟩ := Page.slots_are_independent_cells page schema
  refine ⟨⟨fits, by decide +kernel⟩, inserts, (inserting row fits).2 _ _ inserts, deletes,
    (deleting _).2 _ deletes, fun exists_after => ?_, (failing _ _).freeRecord 0 0 _ _ refuses⟩
  obtain ⟨-, used⟩ := (deleting _).1.1 exists_after
  exact absurd used (by decide +kernel)

end PageStore
