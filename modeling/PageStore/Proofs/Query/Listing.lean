import PageStore.Proofs.Query.Scan
import PageStore.Proofs.Schedule.Shown
import PageStore.Proofs.Schedule.Views

/-!
# What a scan lists

`Contents.Lists` says that rows are those which contents give for some records: each record that
holds a row is listed once, with what it holds, and in the order of pages and then of slots.

The rows of one page are listed in that order (`Page.lists`), and rows of later pages come after
those of earlier ones (`Contents.Lists.append`).  So a scan, which reads page after page, lists what
the pages show, if each page that it fetches shows what the contents say (`readPages_lists`); and it
fails to decode nothing that can be read (`decodes_readPages`).
-/

namespace PageStore

/-- One record comes before another in its table. -/
def RecordId.Precedes (first second : RecordId) : Prop :=
  first.page.number < second.page.number ∨
    first.page.number = second.page.number ∧ first.slot < second.slot

instance (first second : RecordId) : Decidable (first.Precedes second) :=
  inferInstanceAs (Decidable (_ ∨ _))

namespace RecordId.Precedes

variable {first second : RecordId}

theorem irrefl (precedes : first.Precedes first) : False := by
  rcases precedes with lt | ⟨_, lt⟩ <;> exact Nat.lt_irrefl _ lt

theorem asymm (precedes : first.Precedes second) (other : second.Precedes first) : False := by
  rcases precedes with lt | ⟨same, lt⟩ <;> rcases other with lt' | ⟨same', lt'⟩ <;> omega

end RecordId.Precedes

namespace Contents

variable {contents : Contents} {among others : RecordId → Prop} {rows more : List Row}

/-- The rows are those which contents give for some records, one after another in the order of these
records. -/
def Lists (contents : Contents) (among : RecordId → Prop) (rows : List Row) : Prop :=
  ∃ records : List RecordId, records.Pairwise RecordId.Precedes ∧
    (∀ record, record ∈ records ↔ among record ∧ ∃ row, contents record = .ok (some row)) ∧
    List.Forall₂ (fun record row => contents record = .ok (some row) ∧ row.record = some record)
      records rows

theorem Lists.congr (lists : contents.Lists among rows)
    (same : ∀ record row, contents record = .ok (some row) → (among record ↔ others record)) :
    contents.Lists others rows := by
  obtain ⟨records, sorted, mem, holds⟩ := lists
  refine ⟨records, sorted, fun record => (mem record).trans (and_congr_left ?_), holds⟩
  rintro ⟨row, held⟩
  exact same record row held

/-- What is listed is a matter of the records that are looked at. -/
theorem Lists.of_eq {other : Contents} (lists : contents.Lists among rows)
    (same : ∀ record, among record → other record = contents record) : other.Lists among rows := by
  obtain ⟨records, sorted, mem, holds⟩ := lists
  have here : ∀ record ∈ records, other record = contents record :=
    fun record listed => same record ((mem record).1 listed).1
  refine ⟨records, sorted, fun record => (mem record).trans (and_congr_right fun look => ?_), ?_⟩
  · rw [same record look]
  · refine ((List.forall₂_and_left _ _).2 ⟨here, holds⟩).imp ?_
    rintro record row ⟨same, held, own⟩
    exact ⟨same.trans held, own⟩

theorem lists_nil (none : ∀ record, ¬ among record) : contents.Lists among [] :=
  ⟨[], .nil, fun record => ⟨nofun, fun ⟨here, _⟩ => absurd here (none record)⟩, .nil⟩

/-- Rows that come before others are listed before them. -/
theorem Lists.append (first : contents.Lists among rows) (second : contents.Lists others more)
    (before : ∀ early late, among early → others late → early.Precedes late) :
    contents.Lists (fun record => among record ∨ others record) (rows ++ more) := by
  obtain ⟨records, sorted, mem, holds⟩ := first
  obtain ⟨records', sorted', mem', holds'⟩ := second
  refine ⟨records ++ records', List.pairwise_append.2 ⟨sorted, sorted', fun early here late there =>
    before early late ((mem early).1 here).1 ((mem' late).1 there).1⟩, fun record => ?_,
    List.rel_append holds holds'⟩
  rw [List.mem_append, mem, mem', or_and_right]

/-- What contents list is told by the contents. -/
theorem Lists.unique (lists : contents.Lists among rows) (same : contents.Lists among more) :
    rows = more := by
  obtain ⟨records, sorted, mem, holds⟩ := lists
  obtain ⟨records', sorted', mem', holds'⟩ := same
  have nodup {records : List RecordId} (sorted : records.Pairwise RecordId.Precedes) :
      records.Nodup := sorted.imp fun precedes same => (same ▸ precedes).irrefl
  have perm : records.Perm records' :=
    (List.perm_ext_iff_of_nodup (nodup sorted) (nodup sorted')).2 fun record => by rw [mem, mem']
  obtain rfl : records = records' :=
    perm.eq_of_pairwise (fun _ _ _ _ first second => (first.asymm second).elim) sorted sorted'
  clear sorted mem sorted' mem' nodup perm
  induction holds generalizing more with
  | nil =>
    cases holds'
    rfl
  | cons held _ ih =>
    cases holds' with
    | cons held' rest =>
      have same := held.1.symm.trans held'.1
      cases same
      rw [ih rest]

end Contents

namespace Page

variable {page : Page} {schema : Schema} {slot : Nat} {rows : List Row} {contents : Contents}

/-- A slot that can be read holds a row exactly if it is used. -/
theorem row?_eq_some_iff {row : Row} :
    page.row? schema slot = .ok (some row) ↔
      page.isUsed schema slot = true ∧ page.storedRow schema slot = .ok row := by
  unfold row?
  split
  · next used =>
    cases page.storedRow schema slot <;> simp [Except.map, used]
  · next free => simp [free]

theorem mem_usedSlots : slot ∈ page.usedSlots schema ↔ page.isUsed schema slot = true := by
  simp [usedSlots, isUsed]

/-- The rows of a page are listed in the order of its slots. -/
theorem lists (ok : page.rows schema = .ok rows)
    (shows : ∀ slot, page.row? schema slot = contents ⟨page.id, slot⟩) :
    contents.Lists (fun record => record.page = page.id) rows := by
  have stored := Answer.forall₂_of_mapM ok
  have used : ∀ slot ∈ page.usedSlots schema, page.isUsed schema slot = true :=
    fun slot => mem_usedSlots.1
  refine ⟨(page.usedSlots schema).map (⟨page.id, ·⟩), ?_, fun ⟨place, slot⟩ => ?_, ?_⟩
  · have ordered : (page.usedSlots schema).Pairwise (· < ·) :=
      List.Pairwise.filter _ List.pairwise_lt_range
    exact List.pairwise_map.2 (ordered.imp fun lt => .inr ⟨rfl, lt⟩)
  · rw [List.mem_map]
    constructor
    · rintro ⟨_, mem, same⟩
      cases same
      obtain ⟨row, -, here⟩ := Answer.exists_of_mem stored.flip mem
      exact ⟨rfl, row, (shows slot).symm.trans (row?_eq_some_iff.2 ⟨used slot mem, here⟩)⟩
    · rintro ⟨own, row, held⟩
      obtain rfl : place = page.id := own
      rw [← shows, row?_eq_some_iff] at held
      exact ⟨slot, mem_usedSlots.2 held.1, rfl⟩
  · refine List.forall₂_map_left_iff.2 (((List.forall₂_and_left _ _).2 ⟨used, stored⟩).imp ?_)
    rintro slot row ⟨full, here⟩
    exact ⟨(shows slot).symm.trans (row?_eq_some_iff.2 ⟨full, here⟩), record_of_storedRow here⟩

/-- Each slot of a page can be read if its rows can. -/
theorem exists_row? (ok : page.rows schema = .ok rows) (slot : Nat) :
    ∃ row, page.row? schema slot = .ok row := by
  rw [row?]
  split
  · next used =>
    have stored := (Answer.forall₂_of_mapM ok).flip
    obtain ⟨row, -, here⟩ := Answer.exists_of_mem stored (mem_usedSlots.2 used)
    exact ⟨some row, by rw [here]; rfl⟩
  · exact ⟨none, rfl⟩

/-- The rows of a page can be read if each of its slots can. -/
theorem exists_rows (legible : ∀ slot, ∃ row, page.row? schema slot = .ok row) :
    ∃ rows, page.rows schema = .ok rows := by
  have stored : ∀ slot ∈ page.usedSlots schema, ∃ row, page.storedRow schema slot = .ok row := by
    intro slot mem
    obtain ⟨found, held⟩ := legible slot
    rw [row?, if_pos (mem_usedSlots.1 mem)] at held
    obtain ⟨row, stored, -⟩ := Answer.map_eq_ok.1 held
    exact ⟨row, stored⟩
  exact Answer.exists_of_forall stored

end Page

/-! ## Failures to decode -/

/-- An operation does not fail to decode a row. -/
def Op.Decodes {α : Type} (op : Op α) (s : Store) : Prop :=
  ∀ fault after, op s ≠ .error (.failed (.notDecoded fault)) after

theorem Op.Decodes.bind {α β : Type} {op : Op α} {rest : α → Op β} {s : Store}
    (first : op.Decodes s) (goesOn : ∀ a after, op s = .ok a after → (rest a).Decodes after) :
    (op >>= rest).Decodes s := by
  intro fault later fails
  cases ran : op s with
  | ok a after =>
    rw [Op.bind_ok ran] at fails
    exact goesOn a after ran fault later fails
  | error stop after =>
    rw [Op.bind_error ran] at fails
    cases fails
    exact first fault later ran

theorem Op.decodes_ofExcept {α : Type} {answer : Except Error α} (s : Store)
    (safe : ∀ fault, answer ≠ .error (.notDecoded fault)) : (Op.ofExcept answer).Decodes s := by
  intro fault after fails
  cases answer with
  | ok a => cases fails
  | error e =>
    cases fails
    exact safe fault rfl

namespace Store

variable {s after : Store} {txn : TxnId} {page : PageId} {mode : LockMode} {file : HeapFile}
  {table : TableId} {rows : List Row} {contents : Contents} {inv : Store → Prop}

theorem file_ne_notDecoded (catalog : Catalog) (table : TableId) (fault : DecodeFault) :
    catalog.file table ≠ .error (.notDecoded fault) := by
  unfold Catalog.file
  split <;> nofun

theorem decodes_fileOf (s : Store) (table : TableId) : (fileOf table).Decodes s :=
  Op.decodes_ofExcept s (file_ne_notDecoded s.catalog table)

theorem decodes_fetch (s : Store) (txn : TxnId) (page : PageId) (mode : LockMode) :
    (fetch txn page mode).Decodes s := by
  intro fault after fails
  cases fetch_fault fails

/-! ## Reading page after page -/

/-- Fetching a page of a file gives the rows that contents say, as long as an invariant holds. -/
def Gives (inv : Store → Prop) (txn : TxnId) (mode : LockMode) (file : HeapFile)
    (contents : Contents) : Prop :=
  ∀ s number frame after, inv s → fetch txn ⟨file.table, number⟩ mode s = .ok frame after →
    inv after ∧ frame.page.id = ⟨file.table, number⟩ ∧
      ∀ slot, frame.page.row? file.schema slot = contents ⟨frame.page.id, slot⟩

/-- What is read of a run of pages is what contents say of them. -/
theorem readPages_lists (gives : Gives inv txn mode file contents) {pages number : Nat}
    (holds : inv s) (read : readPages file txn mode pages number s = .ok rows after) :
    inv after ∧ contents.Lists (fun record => record.page.table = file.table ∧
      number ≤ record.page.number ∧ record.page.number < number + pages) rows := by
  induction pages generalizing s number rows with
  | zero =>
    cases read
    exact ⟨holds, Contents.lists_nil fun record ⟨_, low, high⟩ => by omega⟩
  | succ pages ih =>
    obtain ⟨frame, fetched, fetches, read⟩ := Op.bind_eq_ok.1 read
    obtain ⟨first, same, found, read⟩ := Op.bind_eq_ok.1 read
    obtain ⟨rows', later, rest, ends⟩ := Op.bind_eq_ok.1 read
    obtain ⟨ok, rfl⟩ := Op.ofExcept_eq_ok.1 found
    cases ends
    obtain ⟨holds, id, shows⟩ := gives s number frame same holds fetches
    obtain ⟨holds, lists⟩ := ih holds rest
    refine ⟨holds, ((Page.lists ok shows).append lists fun early late here there => ?_).congr
      fun record row _ => ?_⟩
    · refine .inl ?_
      rw [show early.page = frame.page.id from here, id]
      exact there.2.1
    · rw [id]
      constructor
      · rintro (here | ⟨table, low, high⟩)
        · rw [here]
          exact ⟨rfl, Nat.le_refl _, Nat.lt_add_of_pos_right (Nat.succ_pos pages)⟩
        · exact ⟨table, by omega, by omega⟩
      · rintro ⟨table, low, high⟩
        rcases Nat.eq_or_lt_of_le low with here | above
        · exact .inl (by rw [← table, here])
        · exact .inr ⟨table, above, by omega⟩

theorem decodes_readPages (gives : Gives inv txn mode file contents) (legible : contents.Legible)
    {pages number : Nat} (holds : inv s) : (readPages file txn mode pages number).Decodes s := by
  induction pages generalizing s number with
  | zero => exact fun _ _ => nofun
  | succ pages ih =>
    refine (decodes_fetch s txn _ mode).bind fun frame fetched fetches => ?_
    obtain ⟨holds, -, shows⟩ := gives s number frame fetched holds fetches
    obtain ⟨rows, ok⟩ := Page.exists_rows fun slot => by
      rw [shows]
      exact legible _
    rw [ok]
    exact (ih holds).bind fun _ _ _ _ _ => nofun

end Store

end PageStore
