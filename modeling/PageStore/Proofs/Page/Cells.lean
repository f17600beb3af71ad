import PageStore.Page.Slots
import PageStore.Proofs.Bytes
import PageStore.Proofs.Record.RoundTrip

/-!
# One slot at a time

Inserting a row into a page and deleting one change what one slot holds: after an insert the slot
holds the stored part of the row, after a delete it holds nothing, and every other slot holds what
it held (`insert_changes`, `delete_changes`).  A header bit is changed alone (`headerBit_modify`),
and the bytes of a slot lie apart from the header and from those of every other slot, so both changes
are confined to the slot (`Confined`).
-/

namespace PageStore.Page

variable {page after : Page} {schema : Schema} {slot other : Nat} {bytes : Bytes} {row : Row}
  {record : RecordId}

/-! ## Header bits -/

theorem testBit_or_bit (b : UInt8) {k : Nat} (small : k < 8) (j : Nat) :
    (b ||| UInt8.ofNat (1 <<< k)).toNat.testBit j = (b.toNat.testBit j || decide (k = j)) := by
  have lt : 2 ^ k < 2 ^ 8 := Nat.pow_lt_pow_right (by decide) small
  rw [UInt8.toNat_or, Nat.testBit_or, UInt8.toNat_ofNat', Nat.one_shiftLeft, Nat.mod_eq_of_lt lt,
    Nat.testBit_two_pow]

theorem testBit_and_not_bit (b : UInt8) {k j : Nat} (small : k < 8) (inside : j < 8) :
    (b &&& ~~~UInt8.ofNat (1 <<< k)).toNat.testBit j =
      (b.toNat.testBit j && !decide (k = j)) := by
  have lt : 2 ^ k < 2 ^ 8 := Nat.pow_lt_pow_right (by decide) small
  have complement : UInt8.size - 1 - 2 ^ k = 2 ^ 8 - (2 ^ k + 1) := by
    simp only [UInt8.size]
    omega
  rw [UInt8.toNat_and, Nat.testBit_and, UInt8.toNat_not, UInt8.toNat_ofNat', Nat.one_shiftLeft,
    Nat.mod_eq_of_lt lt, complement, Nat.testBit_two_pow_sub_succ lt, Nat.testBit_two_pow]
  simp [inside]

/-- Changing the bit of one slot leaves the bits of all others. -/
theorem headerBit_modify {f : UInt8 → UInt8} {g : Bool → Bool → Bool}
    (bit : ∀ b j, j < 8 → (f b).toNat.testBit j = g (b.toNat.testBit j) (decide (slot % 8 = j)))
    (keep : ∀ b, g b false = b) (inside : slot / 8 < bytes.length) (other : Nat) :
    headerBit (bytes.modify (slot / 8) f) other = g (headerBit bytes other) (slot = other) := by
  unfold headerBit
  rw [List.getD_eq_getElem?_getD, List.getD_eq_getElem?_getD, List.getElem?_modify]
  by_cases same : slot / 8 = other / 8
  · have there : bytes[other / 8]? = some (bytes[slot / 8]) := by
      rw [← same]
      exact List.getElem?_eq_getElem inside
    simp only [there, same, if_true, Option.map_eq_map, Option.map_some, Option.getD_some]
    rw [bit _ _ (Nat.mod_lt _ (by decide))]
    congr 1
    exact decide_eq_decide.2 (by omega)
  · have apart : slot ≠ other := fun h => same (by rw [h])
    simp only [same, if_false, apart, decide_false, keep, Option.map_eq_map, Option.map_id']

theorem headerBit_setBit (inside : slot / 8 < bytes.length) (other : Nat) :
    headerBit (setBit bytes slot) other = (headerBit bytes other || decide (slot = other)) :=
  headerBit_modify (g := fun b set => b || set)
    (fun b j _ => testBit_or_bit b (Nat.mod_lt slot (by decide)) j) Bool.or_false inside other

theorem headerBit_clearBit (inside : slot / 8 < bytes.length) (other : Nat) :
    headerBit (clearBit bytes slot) other = (headerBit bytes other && !decide (slot = other)) :=
  headerBit_modify (g := fun b clear => b && !clear)
    (fun b _ lt => testBit_and_not_bit b (Nat.mod_lt slot (by decide)) lt) Bool.and_true inside
    other

theorem headerBit_splice {start : Nat} {data : Bytes} (before : slot / 8 < start)
    (inside : start ≤ bytes.length) :
    headerBit (bytes.splice start data) slot = headerBit bytes slot := by
  unfold headerBit
  rw [List.getD_eq_getElem?_getD, List.getD_eq_getElem?_getD, Bytes.getElem?_splice inside,
    if_neg (by omega)]

theorem slice_modify {f : UInt8 → UInt8} {i start : Nat} (before : i < start) (length : Nat) :
    Bytes.slice (bytes.modify i f) start length = bytes.slice start length := by
  apply List.ext_getElem?
  intro j
  rw [Bytes.getElem?_slice, Bytes.getElem?_slice, List.getElem?_modify_ne]
  omega

/-! ## Where slots lie -/

theorem start_bounds (lt : slot < page.slots schema) :
    headerSize (page.slots schema) ≤ page.start schema slot ∧
      page.start schema slot + schema.width ≤ page.bytes.length := by
  have ends : page.start schema slot + schema.width ≤ page.start schema (page.slots schema) :=
    slotStart_add_le lt
  exact ⟨Nat.le_add_right _ _, Nat.le_trans ends (slots_fit page.bytes.length schema.width)⟩

theorem header_before (lt : slot < page.slots schema) :
    slot / 8 < headerSize (page.slots schema) := by
  unfold headerSize
  omega

theorem header_inside (lt : slot < page.slots schema) : slot / 8 < page.bytes.length := by
  have header := header_before lt
  have bounds := start_bounds lt
  omega

/-- A slot ends where the next begins, or before. -/
theorem start_add_width_le (lt : slot < other) :
    page.start schema slot + schema.width ≤ page.start schema other := slotStart_add_le lt

theorem start_disjoint (ne : slot ≠ other) :
    page.start schema slot + schema.width ≤ page.start schema other ∨
      page.start schema other + schema.width ≤ page.start schema slot :=
  (Nat.lt_or_gt_of_ne ne).imp start_add_width_le start_add_width_le

theorem headerSize_le_start (page : Page) (schema : Schema) (slot : Nat) :
    headerSize (page.slots schema) ≤ page.start schema slot := Nat.le_add_right _ _

/-! ## What slots hold -/

theorem slots_eq_of_length (length : after.bytes.length = page.bytes.length) (schema : Schema) :
    after.slots schema = page.slots schema := by
  rw [Page.slots, length, Page.slots]

/-- What a slot holds is a matter of its bit and its bytes. -/
theorem row?_congr (id : after.id = page.id) (length : after.bytes.length = page.bytes.length)
    (bit : slot < page.slots schema → headerBit after.bytes slot = headerBit page.bytes slot)
    (stored : slot < page.slots schema →
      after.bytes.slice (page.start schema slot) schema.width =
        page.bytes.slice (page.start schema slot) schema.width) :
    after.row? schema slot = page.row? schema slot := by
  have slots := slots_eq_of_length length schema
  by_cases lt : slot < page.slots schema
  · unfold row? isUsed storedRow start
    rw [slots, bit lt, id]
    unfold start at stored
    rw [stored lt]
  · have out : ¬ slot < after.slots schema := by rwa [slots]
    simp [row?, isUsed, lt, out]

theorem row?_of_bytes (id : after.id = page.id) (bytes : after.bytes = page.bytes)
    (schema : Schema) (slot : Nat) : after.row? schema slot = page.row? schema slot :=
  row?_congr id (by rw [bytes]) (fun _ => by rw [bytes]) fun _ => by rw [bytes]

/-- A page after what one slot holds was changed, of the rows that a schema reads. -/
structure Changes (page after : Page) (schema : Schema) (slot : Nat) (row : Option Row) : Prop where
  id : after.id = page.id
  before : after.before = page.before
  length : after.bytes.length = page.bytes.length
  changed : after.row? schema slot = .ok row
  others : ∀ other, other ≠ slot → after.row? schema other = page.row? schema other

theorem row?_of_used (lt : slot < page.slots schema) (bit : headerBit page.bytes slot = true)
    {fields : List Field}
    (stored : decodeFields schema.types (page.bytes.slice (page.start schema slot) schema.width) =
      .ok fields) :
    page.row? schema slot = .ok (some ⟨fields, some ⟨page.id, slot⟩⟩) := by
  simp [row?, isUsed, storedRow, lt, bit, stored, Except.map]

theorem row?_of_free (bit : headerBit page.bytes slot = false) :
    page.row? schema slot = .ok none := by
  simp [row?, isUsed, bit]

theorem lt_slots_of_isUsed (used : page.isUsed schema slot = true) : slot < page.slots schema := by
  simp only [isUsed, Bool.and_eq_true, decide_eq_true_eq] at used
  exact used.1

theorem row?_of_unused (unused : page.isUsed schema slot = false) :
    page.row? schema slot = .ok none := by
  simp [row?, unused]

/-- A used slot that can be read holds a row. -/
theorem exists_row_of_used (used : page.isUsed schema slot = true) {found : Option Row}
    (read : page.row? schema slot = .ok found) : ∃ row, page.row? schema slot = .ok (some row) := by
  cases found with
  | some row => exact ⟨row, read⟩
  | none =>
    rw [row?, if_pos used] at read
    cases stored : page.storedRow schema slot <;> simp [stored, Except.map] at read

/-- The first free slot comes after used ones alone. -/
theorem firstFree?_eq_some (free : page.firstFree? schema = some slot) :
    slot < page.slots schema ∧ page.isUsed schema slot = false ∧
      ∀ earlier, earlier < slot → page.isUsed schema earlier = true := by
  obtain ⟨unused, inside, before⟩ := List.find?_range_eq_some.1 free
  have lt := List.mem_range.1 inside
  refine ⟨lt, ?_, fun earlier sooner => ?_⟩
  · simpa [isUsed, lt] using unused
  · simpa [isUsed, Nat.lt_trans sooner lt] using before earlier sooner

theorem firstFree?_eq_none (full : page.firstFree? schema = none) (lt : slot < page.slots schema) :
    page.isUsed schema slot = true := by
  simpa [isUsed, lt] using List.find?_range_eq_none.1 full slot lt

/-- A page has a first free slot exactly if it has a free slot. -/
theorem firstFree?_isSome_iff : (page.firstFree? schema).isSome = true ↔
    ∃ slot, slot < page.slots schema ∧ page.isUsed schema slot = false := by
  constructor
  · intro some
    obtain ⟨slot, first⟩ := Option.isSome_iff_exists.1 some
    obtain ⟨lt, free, -⟩ := firstFree?_eq_some first
    exact ⟨slot, lt, free⟩
  · rintro ⟨slot, lt, free⟩
    refine Option.isSome_iff_ne_none.2 fun full => ?_
    rw [firstFree?_eq_none full lt] at free
    cases free

theorem headerBit_blank (id : PageId) (pageSize slot : Nat) :
    headerBit (blank id pageSize).bytes slot = false := by
  have zero : (Bytes.zeros pageSize).getD (slot / 8) 0 = 0 := by
    rw [Bytes.zeros, List.getD_eq_getElem?_getD, List.getElem?_replicate]
    split <;> rfl
  rw [headerBit, blank, ofStored, zero]
  exact Nat.zero_testBit _

/-- A page of zeros holds no rows. -/
theorem row?_blank (id : PageId) (pageSize : Nat) (schema : Schema) (slot : Nat) :
    (blank id pageSize).row? schema slot = .ok none :=
  row?_of_free (headerBit_blank id pageSize slot)

theorem isUsed_blank (id : PageId) (pageSize : Nat) (schema : Schema) (slot : Nat) :
    (blank id pageSize).isUsed schema slot = false := by
  rw [isUsed, headerBit_blank, Bool.and_false]

/-- A page of zeros has a free slot, if it has slots. -/
theorem firstFree?_blank (id : PageId) {pageSize : Nat} (room : 0 < slotCount pageSize schema.width) :
    ((blank id pageSize).firstFree? schema).isSome := by
  have slots : (blank id pageSize).slots schema = slotCount pageSize schema.width := by
    rw [Page.slots, blank, ofStored, Bytes.length_zeros]
  exact firstFree?_isSome_iff.2 ⟨0, slots ▸ room, isUsed_blank id pageSize schema 0⟩

/-! ## Changes that are confined to one slot -/

/-- A page after a change that is confined to one slot: the bit of the slot in the header, and the
bytes that the slot lies in. -/
structure Confined (page after : Page) (schema : Schema) (slot : Nat) : Prop where
  same : after = { page with bytes := after.bytes }
  length : after.bytes.length = page.bytes.length
  bits : ∀ other, other ≠ slot → other / 8 < headerSize (page.slots schema) →
    headerBit after.bytes other = headerBit page.bytes other
  stretches : ∀ stretch length, headerSize (page.slots schema) ≤ stretch →
    stretch + length ≤ page.start schema slot ∨ page.start schema slot + schema.width ≤ stretch →
      after.bytes.slice stretch length = page.bytes.slice stretch length

theorem Confined.id (confined : page.Confined after schema slot) : after.id = page.id := by
  rw [confined.same]

theorem Confined.isUsed (confined : page.Confined after schema slot) (ne : other ≠ slot) :
    after.isUsed schema other = page.isUsed schema other := by
  rw [Page.isUsed, Page.isUsed, slots_eq_of_length confined.length]
  by_cases lt : other < page.slots schema
  · rw [confined.bits other ne (header_before lt)]
  · rw [decide_eq_false lt, Bool.false_and, Bool.false_and]

theorem Confined.row? (confined : page.Confined after schema slot) (ne : other ≠ slot) :
    after.row? schema other = page.row? schema other :=
  row?_congr confined.id confined.length (fun lt => confined.bits other ne (header_before lt))
    fun _ => confined.stretches _ _ (headerSize_le_start page schema other) (start_disjoint ne)

theorem Confined.changes {row : Option Row} (confined : page.Confined after schema slot)
    (changed : after.row? schema slot = .ok row) : page.Changes after schema slot row where
  id := confined.id
  before := by rw [confined.same]
  length := confined.length
  changed := changed
  others _ ne := confined.row? ne

theorem length_splice_start (lt : slot < page.slots schema) (fits : row.fits schema) :
    (page.bytes.splice (page.start schema slot) (encodeFields row.fields)).length =
      page.bytes.length :=
  Bytes.length_splice (by rw [Row.length_encode fits]; exact (start_bounds lt).2)

theorem headerBit_store (lt : slot < page.slots schema) (fits : row.fits schema)
    (header : other / 8 < headerSize (page.slots schema)) :
    headerBit (page.store schema slot row).bytes other =
      (headerBit page.bytes other || decide (slot = other)) := by
  have bounds := start_bounds lt
  rw [store, headerBit_setBit, headerBit_splice (by omega) (by omega)]
  rw [length_splice_start lt fits]
  exact header_inside lt

/-- Past the header a page with a stored row has the bytes that were written. -/
theorem slice_store (lt : slot < page.slots schema) {stretch : Nat}
    (past : headerSize (page.slots schema) ≤ stretch) (length : Nat) :
    (page.store schema slot row).bytes.slice stretch length =
      Bytes.slice (page.bytes.splice (page.start schema slot) (encodeFields row.fields))
        stretch length :=
  slice_modify (Nat.lt_of_lt_of_le (header_before lt) past) length

theorem store_confined (lt : slot < page.slots schema) (fits : row.fits schema) :
    page.Confined (page.store schema slot row) schema slot where
  same := rfl
  length := by rw [store, setBit, List.length_modify, length_splice_start lt fits]
  bits other ne header := by
    rw [headerBit_store lt fits header, decide_eq_false ne.symm, Bool.or_false]
  stretches stretch length past apart := by
    have bounds := start_bounds lt
    rw [slice_store lt past, Bytes.slice_splice_of_disjoint (by omega)]
    rwa [Row.length_encode fits]

theorem store_changes (lt : slot < page.slots schema) (fits : row.fits schema) :
    page.Changes (page.store schema slot row) schema slot
      (some ⟨row.fields.map Field.stored, some ⟨page.id, slot⟩⟩) := by
  have confined := store_confined lt fits
  have slots := slots_eq_of_length confined.length schema
  have types : schema.types = row.fields.map Field.type := (Row.fits_iff.1 fits).symm
  refine confined.changes (row?_of_used (by rwa [slots]) ?_ ?_)
  · rw [headerBit_store lt fits (header_before lt), decide_eq_true rfl, Bool.or_true]
  · have bounds := start_bounds lt
    rw [start, slots, ← start, slice_store lt (headerSize_le_start page schema slot),
      ← Row.length_encode fits, Bytes.slice_splice (by omega), types]
    have read := decodeFields_encodeFields row.fields []
    rwa [List.append_nil] at read

theorem clearBit_confined (used : page.isUsed schema slot = true) :
    page.Confined { page with bytes := clearBit page.bytes slot } schema slot where
  same := rfl
  length := List.length_modify _ _ _
  bits other ne _ := by
    rw [headerBit_clearBit (header_inside (lt_slots_of_isUsed used)), decide_eq_false ne.symm,
      Bool.not_false, Bool.and_true]
  stretches _ length past _ :=
    slice_modify (Nat.lt_of_lt_of_le (header_before (lt_slots_of_isUsed used)) past) length

theorem headerBit_clearBit_self (used : page.isUsed schema slot = true) :
    headerBit (clearBit page.bytes slot) slot = false := by
  rw [headerBit_clearBit (header_inside (lt_slots_of_isUsed used)), decide_eq_true rfl,
    Bool.not_true, Bool.and_false]

/-! ## Inserts and deletes -/

theorem insert_eq_ok_iff :
    page.insert schema row = .ok (after, record) ↔
      row.fits schema = true ∧ page.firstFree? schema = some record.slot ∧
        record.page = page.id ∧ after = page.store schema record.slot row := by
  unfold Page.insert
  constructor
  · intro ok
    split at ok
    · next fits =>
      split at ok
      · next slot free =>
        cases ok
        exact ⟨fits, free, rfl, rfl⟩
      · cases ok
    · cases ok
  · rintro ⟨fits, free, here, rfl⟩
    rw [if_pos fits, free, ← here]

theorem delete_eq_ok_iff :
    page.delete schema record = .ok after ↔
      record.page = page.id ∧ page.isUsed schema record.slot = true ∧
        after = { page with bytes := clearBit page.bytes record.slot } := by
  unfold Page.delete
  constructor
  · intro ok
    split at ok
    · cases ok
    · next here =>
      split at ok
      · next used =>
        cases ok
        exact ⟨Decidable.of_not_not here, used, rfl⟩
      · cases ok
  · rintro ⟨here, used, rfl⟩
    rw [if_neg (not_not_intro here), if_pos used]

/-- An insert stores the row in one slot of the page. -/
theorem insert_changes (ok : page.insert schema row = .ok (after, record)) :
    record.page = page.id ∧
      page.Changes after schema record.slot
        (some ⟨row.fields.map Field.stored, some record⟩) := by
  obtain ⟨fits, free, here, rfl⟩ := insert_eq_ok_iff.1 ok
  have changes := store_changes (firstFree?_eq_some free).1 fits
  rw [← here] at changes
  exact ⟨here, changes⟩

/-- A delete frees one slot of the page. -/
theorem delete_changes (ok : page.delete schema record = .ok after) :
    record.page = page.id ∧ page.Changes after schema record.slot none := by
  obtain ⟨here, used, rfl⟩ := delete_eq_ok_iff.1 ok
  exact ⟨here, (clearBit_confined used).changes (row?_of_free (headerBit_clearBit_self used))⟩

end PageStore.Page
