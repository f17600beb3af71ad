import PageStore.Proofs.Bytes
import PageStore.Table.Catalog

/-!
# Pages of a heap file

A page can be read from a file exactly if it belongs to the file's table and lies inside the file
(`read_eq_ok`).  `Writes` describes a page write, which puts the bytes of one page into the file of
its table.  If that page is in the file or is the next one after its last, the write changes what
that page reads as and nothing else (`Writes.read_self`, `Writes.read_other`).

Files are told apart by their paths and tables by their numbers, and the number of a table follows
from the path of its file.  A catalog is sound (`Catalog.Sound`) if it lists each file under its own
number and each page of it has room for a row.  `HeapFile.onDisk` opens such files, and
`Catalog.add` keeps a catalog of such files sound.
-/

namespace PageStore

namespace HeapFile

variable {file other : HeapFile} {disk after : Disk} {page place : PageId} {bytes : Bytes}

/-- A page can be read if it is the file's and ends inside the file. -/
theorem read_eq_ok {stored : Page} :
    file.read disk page = .ok stored ↔
      page.table = file.table ∧
        page.offset file.pageSize + file.pageSize ≤ (disk.read file.path).length ∧
        stored = .ofStored page
          ((disk.read file.path).slice (page.offset file.pageSize) file.pageSize) := by
  unfold HeapFile.read checkPage
  by_cases own : page.table = file.table
  · simp only [own, if_true, bind, Except.bind]
    split
    · next inside => simp [inside, eq_comm]
    · next outside => simp [outside]
  · simp [own, bind, Except.bind]

/-- A page that is read is as it is stored, and as long as the file's pages are. -/
theorem read_shape {stored : Page} (ok : file.read disk page = .ok stored) :
    stored = .ofStored page stored.bytes ∧ stored.bytes.length = file.pageSize := by
  obtain ⟨-, inside, rfl⟩ := read_eq_ok.1 ok
  exact ⟨rfl, Bytes.length_slice_of_le inside⟩

/-- What reading gives depends on the bytes of the file alone. -/
theorem read_congr (same : after.read file.path = disk.read file.path) (page : PageId) :
    file.read after page = file.read disk page := by
  unfold HeapFile.read
  rw [same]

/-- The whole pages are those that can be read. -/
theorem lt_pageCount_iff (positive : 0 < file.pageSize) (number : Nat) :
    number < file.pageCount disk ↔
      (⟨file.table, number⟩ : PageId).offset file.pageSize + file.pageSize
        ≤ (disk.read file.path).length := by
  unfold pageCount PageId.offset
  rw [Nat.lt_iff_add_one_le, Nat.le_div_iff_mul_le positive, Nat.add_mul, Nat.one_mul]

/-! ## Page writes -/

/-- The disk after the bytes of a page were written into a file. -/
structure Writes (file : HeapFile) (page : PageId) (bytes : Bytes) (disk after : Disk) : Prop where
  own : page.table = file.table
  whole : bytes.length = file.pageSize
  eq : after = disk.write file.path (page.offset file.pageSize) bytes

theorem write_eq_ok {written : Page} :
    file.write disk written = .ok after ↔ file.Writes written.id written.bytes disk after := by
  unfold HeapFile.write checkPage
  by_cases own : written.id.table = file.table
  · simp only [own, if_true, bind, Except.bind]
    split
    · next whole => exact ⟨fun h => ⟨own, whole, by cases h; rfl⟩, fun h => by rw [h.eq]⟩
    · next short => exact ⟨nofun, fun h => absurd h.whole short⟩
  · simp only [own, if_false, bind, Except.bind]
    exact ⟨nofun, fun h => absurd h.own own⟩

theorem Writes.bytes_eq (writes : file.Writes page bytes disk after) :
    after.read file.path =
      ((disk.read file.path).extendTo (page.offset file.pageSize)).splice
        (page.offset file.pageSize) bytes := by
  rw [writes.eq, Disk.write, Disk.read_put, if_pos rfl]

theorem Writes.bytes_other (writes : file.Writes page bytes disk after) {path : String}
    (apart : path ≠ file.path) : after.read path = disk.read path := by
  rw [writes.eq, Disk.write, Disk.read_put, if_neg apart]

theorem Writes.length_eq (writes : file.Writes page bytes disk after) :
    (after.read file.path).length =
      max (disk.read file.path).length (page.offset file.pageSize + file.pageSize) := by
  rw [writes.bytes_eq, Bytes.length_splice_extendTo, writes.whole]

/-- Writing a page that is in the file changes the bytes of that page. -/
theorem Writes.getElem?_eq (writes : file.Writes page bytes disk after)
    (positive : 0 < file.pageSize) (inside : page.number < file.pageCount disk) (i : Nat) :
    (after.read file.path)[i]? =
      if page = ⟨file.table, i / file.pageSize⟩ then bytes[i % file.pageSize]?
      else (disk.read file.path)[i]? := by
  rcases page with ⟨table, number⟩
  obtain rfl : table = file.table := writes.own
  have reach := (lt_pageCount_iff positive number).1 inside
  have splits := Nat.div_add_mod i file.pageSize
  have rest := Nat.mod_lt i positive
  rw [writes.bytes_eq, Bytes.extendTo_of_le (by omega), Bytes.getElem?_splice (by omega),
    writes.whole]
  have start : (⟨file.table, number⟩ : PageId).offset file.pageSize = number * file.pageSize := rfl
  by_cases here : number = i / file.pageSize
  · rw [← here, Nat.mul_comm] at splits
    rw [if_pos (by omega), if_pos (by rw [here])]
    congr 1
    omega
  · rw [if_neg, if_neg fun same => here (congrArg PageId.number same)]
    rintro ⟨low, high⟩
    refine here (Nat.le_antisymm ?_ ?_)
    · exact (Nat.le_div_iff_mul_le positive).2 low
    · refine Nat.le_of_lt_succ ((Nat.div_lt_iff_lt_mul positive).2 ?_)
      rw [Nat.succ_mul]
      exact high

/-- The page reads as it was written. -/
theorem Writes.read_self (writes : file.Writes page bytes disk after) :
    file.read after page = .ok (.ofStored page bytes) := by
  refine read_eq_ok.2 ⟨writes.own, ?_, ?_⟩
  · rw [writes.length_eq]
    omega
  · rw [writes.bytes_eq, ← writes.whole, Bytes.slice_splice]
    rw [Bytes.length_extendTo]
    omega

/-- Two pages of one table are apart in its file. -/
theorem offset_disjoint (pageSize : Nat) {p q : PageId} (table : p.table = q.table) (ne : p ≠ q) :
    p.offset pageSize + pageSize ≤ q.offset pageSize ∨
      q.offset pageSize + pageSize ≤ p.offset pageSize := by
  rcases p with ⟨p, m⟩
  rcases q with ⟨q, n⟩
  subst table
  have numbers : m ≠ n := fun same => ne (by rw [same])
  unfold PageId.offset
  have step (a b : Nat) (lt : a < b) : a * pageSize + pageSize ≤ b * pageSize := by
    rw [← Nat.succ_mul]
    exact Nat.mul_le_mul_right pageSize lt
  rcases Nat.lt_or_gt_of_ne numbers with lt | gt
  · exact .inl (step m n lt)
  · exact .inr (step n m gt)

/-- Writing a page that is in the file, or the next one, keeps what every other page reads as. -/
theorem Writes.read_other (writes : file.Writes page bytes disk after)
    (positive : 0 < file.pageSize) (next : page.number ≤ file.pageCount disk) (ne : place ≠ page)
    {stored : Page} :
    file.read after place = .ok stored ↔ file.read disk place = .ok stored := by
  rw [read_eq_ok, read_eq_ok]
  refine and_congr_right ?_
  intro own
  have apart := offset_disjoint file.pageSize (own.trans writes.own.symm) ne
  have reach : page.offset file.pageSize ≤ (disk.read file.path).length := by
    unfold PageId.offset
    exact (Nat.le_div_iff_mul_le positive).1 next
  have inside : place.offset file.pageSize + file.pageSize ≤ (after.read file.path).length ↔
      place.offset file.pageSize + file.pageSize ≤ (disk.read file.path).length := by
    rw [writes.length_eq]
    omega
  rw [inside, writes.bytes_eq, Bytes.extendTo_of_le reach, Bytes.slice_splice_of_disjoint reach]
  rw [writes.whole]
  exact apart

/-- Writing the page after the last adds one page. -/
theorem Writes.pageCount_next
    (writes : file.Writes ⟨file.table, file.pageCount disk⟩ bytes disk after)
    (positive : 0 < file.pageSize) : file.pageCount after = file.pageCount disk + 1 := by
  have length := writes.length_eq
  have whole : (disk.read file.path).length < (file.pageCount disk + 1) * file.pageSize :=
    (Nat.div_lt_iff_lt_mul positive).1 (Nat.lt_succ_self _)
  rw [Nat.succ_mul] at whole
  unfold PageId.offset at length
  have all : (after.read file.path).length = (file.pageCount disk + 1) * file.pageSize := by
    rw [length, Nat.succ_mul]
    exact Nat.max_eq_right (Nat.le_of_lt whole)
  rw [pageCount, all, Nat.mul_div_cancel _ positive]

/-- A page that is written after the last of a file of whole pages is appended. -/
theorem Writes.read_next
    (writes : file.Writes ⟨file.table, file.pageCount disk⟩ bytes disk after)
    (whole : file.pageSize ∣ (disk.read file.path).length) :
    after.read file.path = disk.read file.path ++ bytes := by
  have offset : (⟨file.table, file.pageCount disk⟩ : PageId).offset file.pageSize =
      (disk.read file.path).length := Nat.div_mul_cancel whole
  rw [writes.bytes_eq, offset, Bytes.extendTo_of_le (Nat.le_refl _), Bytes.splice, List.take_length,
    List.drop_of_length_le (Nat.le_add_right _ _), List.append_nil]

/-! ## Sound catalogs -/

/-- A file whose table has the number of its path, and whose pages have room for a row. -/
structure Sound (file : HeapFile) : Prop where
  table : file.table = TableId.ofPath file.path
  fits : accepts .checked file.schema file.pageSize = some true

theorem Sound.room (sound : file.Sound) :
    0 < file.schema.width ∧ 1 ≤ slotCount file.pageSize file.schema.width :=
  room_of_accepts sound.fits

theorem Sound.pageSize_pos (sound : file.Sound) : 0 < file.pageSize := by
  refine Nat.pos_of_ne_zero fun empty => ?_
  have room := sound.room.2
  rw [empty, slotCount, Nat.zero_mul, Nat.zero_div, ite_self] at room
  exact absurd room (by decide)

variable {arithmetic : Arithmetic} {name : String} {schema : Schema} {pageSize : Nat}

/-- A file is opened if its pages have room for a row and its name leads to a place, where it is
created. -/
theorem onDisk_eq_ok :
    onDisk arithmetic disk name schema pageSize = .ok (file, after) ↔
      accepts arithmetic schema pageSize = some true ∧
        ∃ path, disk.directory.fileAt name = .ok path ∧
          file = ⟨TableId.ofPath path, path, schema, pageSize⟩ ∧ after = disk.create path := by
  unfold onDisk
  match accepts arithmetic schema pageSize with
  | none => simp
  | some false => simp
  | some true =>
    cases place : disk.directory.fileAt name with
    | error cause => simp [bind, Except.bind]
    | ok path => simp [bind, Except.bind, pure, Except.pure, eq_comm]

/-- It is not opened if the program stops over its sizes, if its pages have no room, or else for want
of a place. -/
theorem onDisk_eq_error {cause : Error} :
    onDisk arithmetic disk name schema pageSize = .error cause ↔
      accepts arithmetic schema pageSize = none ∧ cause = .tooManyBits ∨
        accepts arithmetic schema pageSize = some false ∧ cause = .doesNotFit schema pageSize ∨
          accepts arithmetic schema pageSize = some true ∧
            disk.directory.fileAt name = .error cause := by
  unfold onDisk
  match accepts arithmetic schema pageSize with
  | none => simp [eq_comm]
  | some false => simp [eq_comm]
  | some true => cases place : disk.directory.fileAt name <;> simp [bind, Except.bind, pure, Except.pure]

/-- A file that is opened is sound, and in the place that its name has. -/
theorem sound_of_onDisk (opened : onDisk .checked disk name schema pageSize = .ok (file, after)) :
    file.Sound ∧ disk.directory.fileAt name = .ok file.path := by
  obtain ⟨fits, path, place, rfl, -⟩ := onDisk_eq_ok.1 opened
  exact ⟨⟨rfl, fits⟩, place⟩

/-- Opening a file leaves the bytes of all files as they are. -/
theorem read_onDisk (opened : onDisk arithmetic disk name schema pageSize = .ok (file, after))
    (path : String) : after.read path = disk.read path := by
  obtain ⟨-, place, -, -, rfl⟩ := onDisk_eq_ok.1 opened
  exact Disk.read_create disk place path

end HeapFile

namespace Catalog

variable {catalog added : Catalog} {file other : HeapFile} {table : TableId}

theorem file_eq_ok :
    catalog.file table = .ok file ↔ ∃ entry, catalog.get? table = some entry ∧ entry.file = file := by
  unfold Catalog.file
  cases catalog.get? table with
  | none => simp
  | some entry => simp

/-- Every table is listed under the number of its file, and has room for rows. -/
def Sound (catalog : Catalog) : Prop :=
  ∀ table file, catalog.file table = .ok file → file.table = table ∧ file.Sound

/-- Tables of different numbers are in different files. -/
theorem Sound.path_ne (sound : catalog.Sound) (own : catalog.file file.table = .ok file)
    (listed : catalog.file other.table = .ok other) (ne : other.table ≠ file.table) :
    other.path ≠ file.path := by
  intro same
  rw [(sound _ _ own).2.table, (sound _ _ listed).2.table, same] at ne
  exact ne rfl

theorem sound_empty : Sound (Dictionary.empty : Catalog) := by
  intro table file listed
  cases listed

/-- A catalog with one more file lists that file, and otherwise what it listed before. -/
theorem file_add {name : String} (ok : catalog.add file name = .ok added)
    (listed : added.file table = .ok other) :
    (table = file.table ∧ other = file) ∨ catalog.file table = .ok other := by
  rcases file_eq_ok.1 listed with ⟨entry, look, rfl⟩
  dsimp only [Catalog.add] at ok
  split at ok
  · cases ok
  · cases ok
    rw [Dictionary.get?_put] at look
    split at look
    · next same =>
      cases look
      exact .inl ⟨same, rfl⟩
    · rw [Dictionary.get?_filter, Option.filter_eq_some_iff] at look
      exact .inr (file_eq_ok.2 ⟨entry, look.1, rfl⟩)

/-- Registering a sound file keeps a catalog sound. -/
theorem Sound.add (sound : catalog.Sound) (file : HeapFile) (fileSound : file.Sound) {name : String}
    (ok : catalog.add file name = .ok added) : added.Sound := by
  intro table other listed
  rcases file_add ok listed with ⟨rfl, rfl⟩ | before
  · exact ⟨rfl, fileSound⟩
  · exact sound table other before

end Catalog

end PageStore
