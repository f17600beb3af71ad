import PageStore.Proofs.Schedule.Ledger

/-!
# What records show

`Store.shownAt` is what a record holds by the cached page that it is on, or else by the table's file.
While a page is clean its records show what they hold by the file (`shownAt_of_clean`), so readying
pages changes nothing (`Readies.shownAt_eq`), and rewriting a page changes one record
(`Rewrites.shownAt_eq`).

A store is legible if every record can be read, by the files and by the cached pages
(`Store.Legible`).  Pages that are changed by storing and freeing rows stay legible, so a system that
began with legible files is legible whatever is done to it (`System.Run.legible`).
-/

namespace PageStore

/-- Every record can be read. -/
def Contents.Legible (contents : Contents) : Prop := ∀ record, ∃ row, contents record = .ok row

namespace Contents

variable {contents : Contents} {record : RecordId}

theorem Legible.change (legible : contents.Legible) (change : Change) :
    (contents.change change).Legible := by
  intro record
  unfold Contents.change
  split
  · exact ⟨_, rfl⟩
  · exact legible record

theorem Legible.apply (legible : contents.Legible) (changes : List Change) :
    (contents.apply changes).Legible := by
  induction changes generalizing contents with
  | nil => exact legible
  | cons change changes ih => exact ih (legible.change change)

end Contents

namespace Store

variable {s after : Store} {txn : TxnId} {page : PageId} {frame : Frame} {file : HeapFile}
  {slot : Nat} {pages : List PageId} {record : RecordId} {row : Option Row}

/-! ## What a record shows -/

/-- What a record holds by the cached page that it is on, or else by the file. -/
def shownAt (s : Store) : Contents := fun record =>
  match s.cache.get? record.page with
  | none => s.recordAt record
  | some frame =>
    match s.catalog.file record.page.table with
    | .error _ => .ok none
    | .ok file => frame.page.row? file.schema record.slot

theorem shownAt_of_cached (cached : s.cache.get? page = some frame)
    (listed : s.catalog.file page.table = .ok file) (slot : Nat) :
    s.shownAt ⟨page, slot⟩ = frame.page.row? file.schema slot := by
  simp only [shownAt, cached, listed]

theorem shownAt_of_missing (missing : s.cache.get? page = none) (slot : Nat) :
    s.shownAt ⟨page, slot⟩ = s.recordAt ⟨page, slot⟩ := by
  simp only [shownAt, missing]

theorem shownAt_of_clean (coherent : Coherent s)
    (clean : ∀ frame, s.cache.get? page = some frame → frame.page.dirtier = none) (slot : Nat) :
    s.shownAt ⟨page, slot⟩ = s.recordAt ⟨page, slot⟩ := by
  cases cached : s.cache.get? page with
  | none => exact shownAt_of_missing cached slot
  | some frame =>
    obtain ⟨file, listed, -⟩ := (coherent.faithful page frame cached).before
    rw [shownAt_of_cached cached listed, coherent.row?_of_clean cached (clean frame cached) listed]

/-- Where the file holds what it held and the writes of a page stay as they were, its records show
what they showed. -/
theorem shownAt_congr (coherent : Coherent s) (coherent' : Coherent after)
    (catalog : after.catalog = s.catalog)
    (records : after.recordAt ⟨page, slot⟩ = s.recordAt ⟨page, slot⟩)
    (dirty : ∀ frame writer, frame.page.dirtier = some writer →
      (after.cache.get? page = some frame ↔ s.cache.get? page = some frame)) :
    after.shownAt ⟨page, slot⟩ = s.shownAt ⟨page, slot⟩ := by
  have still {frame : Frame} {writer : TxnId} (cached : s.cache.get? page = some frame)
      (writes : frame.page.dirtier = some writer) :
      after.shownAt ⟨page, slot⟩ = s.shownAt ⟨page, slot⟩ := by
    obtain ⟨file, listed, -⟩ := (coherent.faithful page frame cached).before
    rw [shownAt_of_cached cached listed, shownAt_of_cached ((dirty frame writer writes).2 cached)
      (by rw [catalog, listed])]
  by_cases written : ∃ frame writer, s.cache.get? page = some frame ∧
      frame.page.dirtier = some writer
  · obtain ⟨frame, writer, cached, writes⟩ := written
    exact still cached writes
  · have clean {frame : Frame} (cached : s.cache.get? page = some frame) :
        frame.page.dirtier = none :=
      Option.eq_none_iff_forall_ne_some.2 fun writer writes =>
        written ⟨frame, writer, cached, writes⟩
    have clean' {frame : Frame} (cached : after.cache.get? page = some frame) :
        frame.page.dirtier = none :=
      Option.eq_none_iff_forall_ne_some.2 fun writer writes =>
        written ⟨frame, writer, (dirty frame writer writes).1 cached, writes⟩
    rw [shownAt_of_clean coherent fun _ => clean, shownAt_of_clean coherent' fun _ => clean', records]

/-- On the way to a page no record shows anything else. -/
theorem Readies.shownAt_eq (readies : Readies txn s after) (coherent : Coherent s) :
    after.shownAt = s.shownAt := by
  funext ⟨page, slot⟩
  exact shownAt_congr coherent (coherent.readies readies) readies.catalog_eq
    (congrFun (readies.recordAt_eq coherent.catalog) _) fun _ _ => readies.dirty_iff

/-- Rewriting a page changes what one record shows. -/
theorem Rewrites.shownAt_eq (rewrites : Rewrites txn record row s after) :
    after.shownAt = s.shownAt.change ⟨record, row⟩ := by
  rcases rewrites with @⟨file, old, changed, listed, cached, id, exclusive, changes⟩
  funext ⟨page, slot⟩
  rcases eq_or_ne page record.page with rfl | apart
  · have now : (s.withFrame { old with page := changed.dirtiedBy txn }).cache.get? record.page =
        some { old with page := changed.dirtiedBy txn } :=
      (get?_withFrame changes id record.page).trans (if_pos rfl)
    have shown : (changed.dirtiedBy txn).row? file.schema slot = changed.row? file.schema slot :=
      Page.row?_of_bytes rfl rfl file.schema slot
    rw [shownAt_of_cached now listed, shown, Contents.change, shownAt_of_cached cached listed]
    rcases record with ⟨page, at'⟩
    by_cases here : slot = at'
    · rw [if_pos (congrArg _ here), here, changes.changed]
    · rw [if_neg fun same => here (congrArg RecordId.slot same), changes.others slot here]
  · have kept : (s.withFrame { old with page := changed.dirtiedBy txn }).cache.get? page =
        s.cache.get? page := (get?_withFrame changes id page).trans (if_neg apart)
    rw [Contents.change, if_neg fun same => apart (congrArg RecordId.page same)]
    unfold shownAt
    rw [kept]
    rfl

/-- Flushing stores what the records show. -/
theorem Persists.recordAt_eq (persists : Persists pages s after) (coherent : Coherent s)
    (slot : Nat) :
    after.recordAt ⟨page, slot⟩ =
      if page ∈ pages then s.shownAt ⟨page, slot⟩ else s.recordAt ⟨page, slot⟩ := by
  split
  · next mem =>
    cases cached : s.cache.get? page with
    | none => rw [persists.recordAt_other (.inr cached), shownAt_of_missing cached]
    | some frame =>
      obtain ⟨file, listed, -⟩ := (coherent.faithful page frame cached).before
      rw [persists.recordAt_self coherent mem cached listed, shownAt_of_cached cached listed]
  · next absent => exact persists.recordAt_other (.inl absent) slot

theorem Persists.shownAt_eq (persists : Persists pages s after) (coherent : Coherent s) :
    after.shownAt = s.shownAt := by
  funext ⟨page, slot⟩
  have now := persists.cached page
  cases cached : s.cache.get? page with
  | none =>
    rw [cached, Option.map_none] at now
    rw [shownAt_of_missing now, persists.recordAt_eq coherent, shownAt_of_missing cached, ite_self]
  | some frame =>
    obtain ⟨file, listed, -⟩ := (coherent.faithful page frame cached).before
    rw [cached, Option.map_some] at now
    rw [shownAt_of_cached now (by rw [persists.catalog, listed]), shownAt_of_cached cached listed]
    split <;> rfl

/-- What leaves the cache leaves its records as they are by the file. -/
theorem shownAt_of_kept (disk : after.disk = s.disk) (catalog : after.catalog = s.catalog)
    (kept : ∀ page frame, after.cache.get? page = some frame → s.cache.get? page = some frame)
    (record : RecordId) :
    after.shownAt record = s.shownAt record ∨ after.shownAt record = s.recordAt record := by
  cases now : after.cache.get? record.page with
  | none =>
    have files := congrFun (recordAt_of_disk catalog disk) record
    exact .inr ((shownAt_of_missing now record.slot).trans files)
  | some frame =>
    have cached := kept record.page frame now
    refine .inl ?_
    unfold shownAt
    rw [now, cached, catalog]

/-! ## Legible stores -/

/-- A store in which every record can be read, by the files and by the cached pages. -/
structure Legible (s : Store) : Prop where
  stored : s.recordAt.Legible
  shown : s.shownAt.Legible

/-- Over empty files every record can be read, since it holds nothing. -/
theorem legible_of_empty (sound : s.catalog.Sound) (empty : ∀ path, s.disk.read path = []) :
    s.recordAt.Legible := by
  intro record
  refine ⟨none, recordAt_of_missing (fun stored stores => ?_) record.slot⟩
  obtain ⟨file, listed, -⟩ := id stores
  have inside := stores.lt_pageCount sound listed
  rw [HeapFile.pageCount, empty, List.length_nil, Nat.zero_div] at inside
  exact Nat.not_lt_zero _ inside

theorem Legible.readies (legible : Legible s) (coherent : Coherent s)
    (readies : Readies txn s after) : Legible after where
  stored := readies.recordAt_eq coherent.catalog ▸ legible.stored
  shown := readies.shownAt_eq coherent ▸ legible.shown

theorem Legible.rewrites (legible : Legible s) (rewrites : Rewrites txn record row s after) :
    Legible after where
  stored := by
    have files : after.recordAt = s.recordAt := by
      cases rewrites
      exact recordAt_of_disk rfl rfl
    exact files ▸ legible.stored
  shown := rewrites.shownAt_eq ▸ legible.shown.change _

theorem Legible.persists (legible : Legible s) (coherent : Coherent s)
    (persists : Persists pages s after) : Legible after where
  stored record := by
    rw [show record = ⟨record.page, record.slot⟩ from rfl, persists.recordAt_eq coherent]
    split
    · exact legible.shown _
    · exact legible.stored _
  shown := persists.shownAt_eq coherent ▸ legible.shown

theorem Legible.of_kept (legible : Legible s) (disk : after.disk = s.disk)
    (catalog : after.catalog = s.catalog)
    (kept : ∀ page frame, after.cache.get? page = some frame → s.cache.get? page = some frame) :
    Legible after where
  stored := recordAt_of_disk catalog disk ▸ legible.stored
  shown record := by
    rcases shownAt_of_kept disk catalog kept record with same | same <;> rw [same]
    · exact legible.shown record
    · exact legible.stored record

theorem Legible.abort (legible : Legible s) (txn : TxnId) : Legible (s.abort txn) :=
  legible.of_kept (by rw [abort_eq]) (by rw [abort_eq]) fun _ _ cached =>
    (get?_abort_eq_some.1 cached).1

end Store

open Store

namespace System

variable {s after : Store} {sys start : System} {action : Action} {report : Report}
  {reports : List Report} {allowed : System → Action → Prop}

theorem Moves.legible (moves : Moves s action report after) (coherent : Coherent s)
    (legible : Legible s) : Legible after := by
  cases moves with
  | readies readies _ => exact legible.readies coherent readies
  | alters _ alters =>
    obtain ⟨readied, readies, rewrites⟩ := alters
    exact (legible.readies coherent readies).rewrites rewrites
  | commits persists =>
    exact (legible.persists coherent persists).of_kept rfl rfl fun _ _ cached => cached
  | fails persists => exact (legible.persists coherent persists).abort _
  | aborts => exact legible.abort _
  | flushes _ persists => exact legible.persists coherent persists
  | discards =>
    exact legible.of_kept (by rw [dropPage_eq]) (by rw [dropPage_eq])
      fun _ _ cached => get?_of_dropPage cached
  | releases => exact legible.of_kept rfl rfl fun _ _ cached => cached

/-- A system that began with legible files is legible whatever was done to it. -/
theorem Run.legible (run : Run allowed start reports sys) (fresh : start.Fresh)
    (legible : start.store.recordAt.Legible) : Legible sys.store := by
  induction run with
  | nil =>
    refine ⟨legible, fun ⟨page, slot⟩ => ?_⟩
    rw [shownAt_of_missing]
    · exact legible _
    · rw [fresh.cache]
      rfl
  | act run action _ ih =>
    have steady := run.steady fresh
    exact (act_moves steady action).legible steady.coherent ih

end System

end PageStore
