import Mathlib.Data.Set.Insert
import Mathlib.Order.Bounds.Defs
import Mathlib.Order.Interval.Set.Defs
import PageStore.Proofs.Page.Cells
import PageStore.Proofs.Table.HeapFile

/-!
# The layout of a page

A page with a header and a number of slots is laid out (`LaidOut`) if they lie inside it, apart from
each other.  That is so exactly if together they are no longer than the page (`laidOut_iff`), and the
slots of a page are the most that can be laid out (`isGreatest_slotCount`): counting in bits does not
lose a slot to the rounding of the header, nor let the last one run over the end.

The program counts that many as long as the bits of a page and of a row are machine words, and not
where they are more (`CountsSlots`).  A page of 2 ^ 61 bytes is counted no slots by a program that
does not check its arithmetic, and one that does stops (`slots_of_oversized_page_are_lost`).

The bytes of a page that matter to a slot are the one of the header with its bit, and its own
(`Page.placesOf`).  What the slot holds is read from these alone, and an insert or a delete writes no
others (`Page.keepsTo`).

A file is opened for a schema exactly if rows have a width and its pages are counted a slot
(`HeapFile.admits`).  What else can go wrong is the name of the file.
-/

namespace PageStore

variable {pageSize rowWidth slots slot other i : Nat}

/-! ## Stretches of a page -/

/-- The places of the bytes of the header, on a page with that many slots. -/
def headerPlaces (slots : Nat) : Set Nat := Set.Iio (headerSize slots)

/-- The places of the bytes of a slot, on a page with that many slots. -/
def slotPlaces (slots rowWidth slot : Nat) : Set Nat :=
  Set.Ico (slotStart slots rowWidth slot) (slotStart slots rowWidth slot + rowWidth)

theorem mem_headerPlaces : i ∈ headerPlaces slots ↔ i < headerSize slots := Iff.rfl

theorem mem_slotPlaces :
    i ∈ slotPlaces slots rowWidth slot ↔
      slotStart slots rowWidth slot ≤ i ∧ i < slotStart slots rowWidth slot + rowWidth := Iff.rfl

/-- Each slot has its bit in the header. -/
theorem bit_mem_headerPlaces (lt : slot < slots) : slot / 8 ∈ headerPlaces slots := by
  rw [mem_headerPlaces, headerSize]
  omega

/-- No byte of a slot is one of the header. -/
theorem not_mem_headerPlaces (mem : i ∈ slotPlaces slots rowWidth slot) :
    i ∉ headerPlaces slots := by
  have past : headerSize slots ≤ i := Nat.le_trans (Nat.le_add_right _ _) mem.1
  exact Nat.not_lt.2 past

/-- Every slot ends before any later one begins. -/
theorem not_mem_slotPlaces_of_lt (lt : slot < other)
    (mem : i ∈ slotPlaces slots rowWidth slot) : i ∉ slotPlaces slots rowWidth other := by
  intro later
  have after : slotStart slots rowWidth slot + rowWidth ≤ i :=
    Nat.le_trans (slotStart_add_le lt) later.1
  exact absurd mem.2 (Nat.not_lt.2 after)

/-- No byte of a slot is one of another slot. -/
theorem not_mem_slotPlaces (ne : slot ≠ other) (mem : i ∈ slotPlaces slots rowWidth slot) :
    i ∉ slotPlaces slots rowWidth other := by
  rcases Nat.lt_or_gt_of_ne ne with lt | gt
  · exact not_mem_slotPlaces_of_lt lt mem
  · exact fun there => not_mem_slotPlaces_of_lt gt there mem

/-- A header and slots that lie inside a page.  Each slot has its bit in the header, and its own
bytes are those of no other slot and not of the header. -/
structure LaidOut (pageSize rowWidth slots : Nat) : Prop where
  header : headerPlaces slots ⊆ Set.Iio pageSize
  bit : ∀ slot, slot < slots → slot / 8 ∈ headerPlaces slots
  inside : ∀ slot, slot < slots → slotPlaces slots rowWidth slot ⊆ Set.Iio pageSize
  past : ∀ slot, slot < slots → ∀ i ∈ slotPlaces slots rowWidth slot, i ∉ headerPlaces slots
  apart : ∀ slot other, slot < slots → other < slots → slot ≠ other →
    ∀ i ∈ slotPlaces slots rowWidth slot, i ∉ slotPlaces slots rowWidth other

/-- The header and the slots fit into a page if all together are no longer than it. -/
theorem laidOut_of_le (fits : headerSize slots + slots * rowWidth ≤ pageSize) :
    LaidOut pageSize rowWidth slots where
  header _ mem := Nat.lt_of_lt_of_le mem (Nat.le_trans (Nat.le_add_right _ _) fits)
  bit _ lt := bit_mem_headerPlaces lt
  inside _ lt _ mem := Nat.lt_of_lt_of_le mem.2 (Nat.le_trans (slotStart_add_le lt) fits)
  past _ _ _ mem := not_mem_headerPlaces mem
  apart _ _ _ _ ne _ mem := not_mem_slotPlaces ne mem

/-- The last byte of the last slot is in the page, so all that comes before it is too. -/
theorem LaidOut.le (laidOut : LaidOut pageSize rowWidth slots) (wide : 0 < rowWidth) :
    headerSize slots + slots * rowWidth ≤ pageSize := by
  cases slots with
  | zero =>
    rw [Nat.zero_mul, headerSize]
    omega
  | succ last =>
    have final : slotStart (last + 1) rowWidth last + (rowWidth - 1) ∈
        slotPlaces (last + 1) rowWidth last :=
      mem_slotPlaces.2 ⟨Nat.le_add_right _ _, by omega⟩
    have inside := Set.mem_Iio.1 (laidOut.inside last (Nat.lt_succ_self last) final)
    rw [Nat.succ_mul]
    rw [slotStart] at inside
    omega

theorem laidOut_iff (wide : 0 < rowWidth) :
    LaidOut pageSize rowWidth slots ↔ headerSize slots + slots * rowWidth ≤ pageSize :=
  ⟨fun laidOut => laidOut.le wide, laidOut_of_le⟩

theorem isGreatest_slotCount (wide : 0 < rowWidth) :
    IsGreatest {slots | LaidOut pageSize rowWidth slots} (slotCount pageSize rowWidth) :=
  ⟨laidOut_of_le (slots_fit pageSize rowWidth),
    fun _ laidOut => slotCount_maximal wide (laidOut.le wide)⟩

/-! ## The slots that are counted -/

/-- How the program counts the slots of pages of some size for rows of some width.  If the bits of
both are machine words, it counts the most slots that can be laid out, however it was built.  If not,
it stops where its arithmetic is checked, and else divides what words hold of the bits; so if those
of a page are too many, it counts slots that can be laid out, but not the most. -/
structure CountsSlots (pageSize rowWidth : Nat) : Prop where
  counts : InWords pageSize rowWidth → ∀ arithmetic, ∃ slots,
    slotsPerPage arithmetic pageSize rowWidth = some slots ∧
      IsGreatest {slots | LaidOut pageSize rowWidth slots} slots
  stops : ¬ InWords pageSize rowWidth → slotsPerPage .checked pageSize rowWidth = none
  wraps : slotsPerPage .wrapping pageSize rowWidth =
    some (pageSize * 8 % Word.limit 8 / (rowWidth * 8 % Word.limit 8 + 1))
  loses : Word.limit 8 ≤ pageSize * 8 → rowWidth * 8 < Word.limit 8 → ∃ slots,
    slotsPerPage .wrapping pageSize rowWidth = some slots ∧ LaidOut pageSize rowWidth slots ∧
      ¬ IsGreatest {slots | LaidOut pageSize rowWidth slots} slots

theorem countsSlots (wide : 0 < rowWidth) : CountsSlots pageSize rowWidth where
  counts inWords arithmetic :=
    ⟨_, slotsPerPage_of_inWords inWords arithmetic, isGreatest_slotCount wide⟩
  stops large := slotsPerPage_checked wide large
  wraps := slotsPerPage_wrapping pageSize wide
  loses large row := by
    obtain ⟨slots, counted, fewer⟩ := slotsPerPage_wrapping_lt wide large row
    have most : IsGreatest {slots | LaidOut pageSize rowWidth slots} (slotCount pageSize rowWidth) :=
      isGreatest_slotCount wide
    refine ⟨slots, counted, laidOut_of_le ?_, fun greatest => ?_⟩
    · have all := slots_fit pageSize rowWidth
      have shorter : slots * rowWidth ≤ slotCount pageSize rowWidth * rowWidth :=
        Nat.mul_le_mul_right _ (Nat.le_of_lt fewer)
      unfold headerSize at all ⊢
      omega
    · exact Nat.not_le.2 fewer (greatest.2 most.1)

/-! ## What is read and written of a page -/

namespace Page

variable {page after : Page} {schema : Schema} {row : Row} {record : RecordId}

/-- The places of the bytes of a page that a slot takes: that of the byte with its bit, and those of
its own bytes. -/
def placesOf (page : Page) (schema : Schema) (slot : Nat) : Set Nat :=
  {slot / 8} ∪ slotPlaces (page.slots schema) schema.width slot

theorem laidOut (page : Page) (schema : Schema) :
    LaidOut page.bytes.length schema.width (page.slots schema) :=
  laidOut_of_le (slots_fit page.bytes.length schema.width)

theorem placesOf_subset (lt : slot < page.slots schema) :
    page.placesOf schema slot ⊆ Set.Iio page.bytes.length := by
  have laid := page.laidOut schema
  have bit : slot / 8 ∈ Set.Iio page.bytes.length := laid.header (laid.bit slot lt)
  exact Set.union_subset (Set.singleton_subset_iff.2 bit) (laid.inside slot lt)

/-- A slot of a page to which all that is read or written for it keeps. -/
structure KeepsTo (page : Page) (schema : Schema) (slot : Nat) : Prop where
  inside : page.placesOf schema slot ⊆ Set.Iio page.bytes.length
  reads : ∀ alike : Page, alike.id = page.id → alike.bytes.length = page.bytes.length →
    (∀ i ∈ page.placesOf schema slot, alike.bytes[i]? = page.bytes[i]?) →
      alike.isUsed schema slot = page.isUsed schema slot ∧
        alike.row? schema slot = page.row? schema slot
  inserts : ∀ row after, page.insert schema row = .ok (after, ⟨page.id, slot⟩) →
    after.bytes.length = page.bytes.length ∧
      ∀ i, i ∉ page.placesOf schema slot → after.bytes[i]? = page.bytes[i]?
  deletes : ∀ after, page.delete schema ⟨page.id, slot⟩ = .ok after →
    after.bytes.length = page.bytes.length ∧ ∀ i, i ≠ slot / 8 → after.bytes[i]? = page.bytes[i]?

theorem headerBit_congr {bytes bytes' : Bytes} (same : bytes'[slot / 8]? = bytes[slot / 8]?) :
    headerBit bytes' slot = headerBit bytes slot := by
  rw [headerBit, headerBit, List.getD_eq_getElem?_getD, List.getD_eq_getElem?_getD, same]

/-- The bytes of a slot are those at its places. -/
theorem slice_congr (same : ∀ i ∈ slotPlaces (page.slots schema) schema.width slot,
    after.bytes[i]? = page.bytes[i]?) :
    after.bytes.slice (page.start schema slot) schema.width =
      page.bytes.slice (page.start schema slot) schema.width := by
  apply List.ext_getElem?
  intro i
  rw [Bytes.getElem?_slice, Bytes.getElem?_slice]
  split
  · next among => exact same _ ⟨Nat.le_add_right _ _, Nat.add_lt_add_left among _⟩
  · rfl

/-- Storing a row writes the bytes of its slot, and its bit. -/
theorem getElem?_store (lt : slot < page.slots schema) (fits : row.fits schema)
    (off : i ∉ page.placesOf schema slot) :
    (page.store schema slot row).bytes[i]? = page.bytes[i]? := by
  have bounds := start_bounds lt
  have apart : slot / 8 ≠ i := fun here => off (.inl here.symm)
  rw [store, setBit, List.getElem?_modify_ne _ _ apart, Bytes.getElem?_splice (by omega),
    Row.length_encode fits, if_neg]
  exact fun among => off (.inr among)

theorem keepsTo (lt : slot < page.slots schema) : page.KeepsTo schema slot where
  inside := placesOf_subset lt
  reads alike id length same := by
    have slots := slots_eq_of_length length schema
    have bit := headerBit_congr (same (slot / 8) (.inl rfl))
    refine ⟨by rw [isUsed, isUsed, slots, bit], ?_⟩
    exact row?_congr id length (fun _ => bit) fun _ =>
      slice_congr fun i mem => same i (.inr mem)
  inserts row after ok := by
    obtain ⟨fits, -, -, rfl⟩ := insert_eq_ok_iff.1 ok
    exact ⟨(store_confined lt fits).length, fun i off => getElem?_store lt fits off⟩
  deletes after ok := by
    obtain ⟨-, -, rfl⟩ := delete_eq_ok_iff.1 ok
    exact ⟨List.length_modify _ _ _, fun i ne => List.getElem?_modify_ne _ _ ne.symm⟩

end Page

/-! ## Which files are opened -/

namespace HeapFile

/-- A name that leads to no file has a zero in it, or the machine refuses it. -/
theorem fileAt_error {directory : Directory} {name : String} {cause : Error}
    (refused : directory.fileAt name = .error cause) : cause = .zeroInName ∨ cause = .machine := by
  dsimp only [Directory.fileAt] at refused
  split at refused
  · cases refused
    exact .inl rfl
  · split at refused
    · cases refused
      exact .inr rfl
    · split at refused
      · cases refused
      · cases refused
        exact .inr rfl

/-- What becomes of opening a file for rows of a schema on pages of some size.  It is opened if rows
have a width, a page is counted a slot and the name leads to a file.  It is refused for the schema and
the size if a page is counted no slots, and the program stops where it stops over the count. -/
structure Admits (arithmetic : Arithmetic) (schema : Schema) (pageSize : Nat) (disk : Disk)
    (name : String) : Prop where
  opens : (∃ file after, onDisk arithmetic disk name schema pageSize = .ok (file, after)) ↔
    (0 < schema.width ∧ ∃ slots, slotsPerPage arithmetic pageSize schema.width = some slots ∧
      1 ≤ slots) ∧ ∃ path, disk.directory.fileAt name = .ok path
  refuses : onDisk arithmetic disk name schema pageSize = .error (.doesNotFit schema pageSize) ↔
    slotsPerPage arithmetic pageSize schema.width = some 0
  stops : onDisk arithmetic disk name schema pageSize = .error .tooManyBits ↔
    slotsPerPage arithmetic pageSize schema.width = none

theorem admits (arithmetic : Arithmetic) (schema : Schema) (pageSize : Nat) (disk : Disk)
    (name : String) : Admits arithmetic schema pageSize disk name where
  opens := by
    simp only [onDisk_eq_ok, ← accepts_eq_true]
    constructor
    · rintro ⟨file, after, fits, path, place, -, -⟩
      exact ⟨fits, path, place⟩
    · rintro ⟨fits, path, place⟩
      exact ⟨_, _, fits, path, place, rfl, rfl⟩
  refuses := by
    rw [onDisk_eq_error, ← accepts_eq_false]
    refine ⟨?_, fun short => .inr (.inl ⟨short, rfl⟩)⟩
    rintro (⟨-, impossible⟩ | ⟨short, -⟩ | ⟨-, lost⟩)
    · cases impossible
    · exact short
    · rcases fileAt_error lost with impossible | impossible <;> cases impossible
  stops := by
    rw [onDisk_eq_error, ← accepts_eq_none]
    refine ⟨?_, fun large => .inl ⟨large, rfl⟩⟩
    rintro (⟨large, -⟩ | ⟨-, impossible⟩ | ⟨-, lost⟩)
    · exact large
    · cases impossible
    · rcases fileAt_error lost with impossible | impossible <;> cases impossible

end HeapFile

/-- Slots fill pages as far as they go.  Whatever the size of a page and the width of a row, a page
with its header and slots is laid out exactly if they are no longer than it, it has the greatest number
of slots for which they are, and the program counts these if their bits are machine words; all that is
read or written for a slot of such a page keeps to the slot and to the byte with its bit; and a file of
such pages is opened for a schema of such rows exactly if rows have a width and its pages are counted a
slot. -/
theorem slots_fill_pages (pageSize rowWidth : Nat) :
    (0 < rowWidth →
      (∀ slots, LaidOut pageSize rowWidth slots ↔
        headerSize slots + slots * rowWidth ≤ pageSize) ∧
      IsGreatest {slots | LaidOut pageSize rowWidth slots} (slotCount pageSize rowWidth) ∧
      CountsSlots pageSize rowWidth) ∧
    (∀ (page : Page) schema, page.bytes.length = pageSize → schema.width = rowWidth →
      page.slots schema = slotCount pageSize rowWidth ∧
      (InWords pageSize rowWidth → ∀ arithmetic,
        slotsPerPage arithmetic pageSize rowWidth = some (page.slots schema)) ∧
      ∀ slot, slot < page.slots schema → page.KeepsTo schema slot) ∧
    ∀ schema, schema.width = rowWidth → ∀ arithmetic disk name,
      HeapFile.Admits arithmetic schema pageSize disk name := by
  refine ⟨fun wide => ⟨fun _ => laidOut_iff wide, isGreatest_slotCount wide, countsSlots wide⟩,
    ?_, fun schema _ arithmetic => HeapFile.admits arithmetic schema pageSize⟩
  rintro page schema rfl rfl
  exact ⟨rfl, slotsPerPage_of_inWords, fun _ => Page.keepsTo⟩

/-- The statement above for pages of integers, for the last slot of a page of pairs, and for a text,
which takes 132 bytes and so needs one more for its bit. -/
theorem slots_fill_pages_of_ints_and_texts :
    let page : Page := .blank ⟨1, 4⟩ 64
    let pair := Schema.ofTypes [.int, .int] []
    let text := Schema.ofTypes [.text] []
    (0 < 4 ∧ InWords 4096 4 ∧ slotsPerPage .checked 4096 4 = some 992 ∧ headerSize 992 = 124 ∧
      IsGreatest {slots | LaidOut 4096 4 slots} 992) ∧
    (page.slots pair = 7 ∧ 6 < page.slots pair ∧ page.KeepsTo pair 6) ∧
    ∀ arithmetic disk name,
      HeapFile.onDisk arithmetic disk name text 132 = .error (.doesNotFit text 132) ∧
        HeapFile.onDisk arithmetic disk name text 133 ≠ .error (.doesNotFit text 133) := by
  intro page pair text
  have positive : 0 < 4 := by decide
  have inWords : InWords 4096 4 := ⟨by decide, by decide⟩
  have counted : slotsPerPage .checked 4096 4 = some 992 := by decide
  have inside : 6 < page.slots pair := by decide
  obtain ⟨slots, counts, greatest⟩ :=
    ((slots_fill_pages 4096 4).1 positive).2.2.counts inWords .checked
  cases counted.symm.trans counts
  obtain ⟨-, -, keeps⟩ := (slots_fill_pages 64 8).2.1 page pair rfl rfl
  refine ⟨⟨positive, inWords, counted, by decide, greatest⟩,
    ⟨by decide, inside, keeps 6 inside⟩, fun arithmetic disk name => ⟨?_, fun refused => ?_⟩⟩
  · refine ((slots_fill_pages 132 132).2.2 text rfl arithmetic disk name).refuses.2 ?_
    cases arithmetic <;> decide
  · have none := ((slots_fill_pages 133 132).2.2 text rfl arithmetic disk name).refuses.1 refused
    cases arithmetic <;> exact absurd none (by decide)

/-- One integer and its bit fit into a page of 2 ^ 61 bytes, but its bits are one more than a word can
count: a checked program stops, and another counts no slots.  Neither opens a file with such pages. -/
theorem slots_of_oversized_page_are_lost :
    let pageSize := 2305843009213693952
    let ints := Schema.ofTypes [.int] []
    LaidOut pageSize ints.width 1 ∧ slotsPerPage .checked pageSize ints.width = none ∧
      slotsPerPage .wrapping pageSize ints.width = some 0 ∧
      ¬ IsGreatest {slots | LaidOut pageSize ints.width slots} 0 ∧
      ∀ disk name,
        HeapFile.onDisk .checked disk name ints pageSize = .error .tooManyBits ∧
          HeapFile.onDisk .wrapping disk name ints pageSize = .error (.doesNotFit ints pageSize) := by
  intro pageSize ints
  have one : LaidOut pageSize ints.width 1 := laidOut_of_le (by decide)
  have stops : slotsPerPage .checked pageSize ints.width = none := by decide
  have none : slotsPerPage .wrapping pageSize ints.width = some 0 := by decide
  refine ⟨one, stops, none, fun greatest => absurd (greatest.2 one) (by decide), fun disk name => ?_⟩
  exact ⟨(HeapFile.admits .checked ints pageSize disk name).stops.2 stops,
    (HeapFile.admits .wrapping ints pageSize disk name).refuses.2 none⟩

end PageStore
