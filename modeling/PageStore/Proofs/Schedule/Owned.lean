import PageStore.Proofs.Schedule.Halted
import PageStore.Proofs.Schedule.Residence

/-!
# Pages that a transaction keeps to itself

From the moment that a transaction comes to write a page it holds the page exclusively, and the file
of the page's table holds what the page had (`Store.Alters.owns`).  While the transaction goes on
nobody else writes the page and nothing flushes it, so this stays so (`System.Moves.owns`), and the
writes stay in the cache (`System.Moves.dirtied`).  A page that was appended is held in the same way,
and is all zeros in its file (`Store.Readies.stores_cases`).

Once a page is not dirty it rests: it is what its file holds, until a transaction changes it
(`System.Moves.resting`).
-/

namespace PageStore

namespace Store

variable {s after : Store} {txn other reader : TxnId} {page : PageId} {stored : Page}
  {frame : Frame} {bytes : Bytes} {mode : LockMode} {record : RecordId} {row : Option Row}

/-! ## Pages that nobody else writes -/

/-- What a page has: the bytes that it shows, or zeros if the file of its table ends before it. -/
inductive Had (s : Store) (page : PageId) : Bytes → Prop
  | shown {bytes : Bytes} (shows : s.Shows page bytes) : Had s page bytes
  | absent {file : HeapFile} (listed : s.catalog.file page.table = .ok file)
      (missing : ∀ stored, ¬ s.Stores page stored) : Had s page (Bytes.zeros file.pageSize)

/-- A page that a transaction holds exclusively, with the bytes that its file holds of it. -/
structure Owns (txn : TxnId) (page : PageId) (bytes : Bytes) (s : Store) : Prop where
  exclusive : s.locks.mode? txn page = some .exclusive
  stores : s.Stores page (.ofStored page bytes)

/-- A page that is there once pages were readied was there before, or it was appended: then it is all
zeros, and held by who appended it. -/
theorem Readies.stores_cases (readies : Readies txn s after) (coherent : Coherent s)
    (stores : after.Stores page stored) :
    s.Stores page stored ∨
      ∃ file, s.catalog.file page.table = .ok file ∧ (∀ before, ¬ s.Stores page before) ∧
        Owns txn page (Bytes.zeros file.pageSize) after := by
  cases readies with
  | fetches fetches => exact .inl (fetches.toTurnover.stores.1 stores)
  | @appends locked grown _ before appends rest held =>
    have coherent' := coherent.turnover before.toTurnover
    have there := rest.toTurnover.stores.1 stores
    by_cases old : locked.Stores page stored
    · exact .inl (before.toTurnover.stores.1 old)
    · have exclusive := held page stored there old
      rcases appends with @⟨file, disk, listed, writes⟩
      obtain rfl := eq_next_of_writes coherent'.catalog listed writes there old
      refine .inr ⟨file, by rw [← before.catalog, listed], fun known here => ?_, ?_, ?_⟩
      · have inside := (before.toTurnover.stores.2 here).lt_pageCount coherent'.catalog listed
        exact Nat.lt_irrefl _ inside
      · exact rest.locks.keeps exclusive
      · exact rest.toTurnover.stores.2 ⟨file, listed, writes.read_self⟩

/-- A rewrite leaves its page dirty with the writes of who made it, and the other pages as they
were. -/
theorem Rewrites.get?_eq (rewrites : Rewrites txn record row s after) :
    ∃ frame, frame.page.dirtier = some txn ∧ ∀ place, after.cache.get? place =
      if place = record.page then some frame else s.cache.get? place := by
  rcases rewrites with @⟨file, old, changed, listed, cached, id, exclusive, changes⟩
  exact ⟨{ old with page := changed.dirtiedBy txn }, rfl, get?_withFrame changes id⟩

/-- What a page had that a transaction comes to write is what its file holds from then on. -/
theorem Alters.owns (alters : Alters txn record row s after) (coherent : Coherent s)
    (guarded : Guarded s) (clean : record.page ∉ s.pagesDirtiedBy txn) :
    ∃ bytes, s.Had record.page bytes ∧ Owns txn record.page bytes after := by
  obtain ⟨readied, readies, rewrites⟩ := alters
  rcases rewrites with @⟨file, old, changed, listed, cached, id, exclusive, changes⟩
  have stores := ((coherent.readies readies).faithful record.page old cached).before
  refine ⟨old.page.before, ?_, exclusive, stores⟩
  rcases readies.stores_cases coherent stores with here | ⟨into, listed', missing, owns⟩
  · refine .shown (shows_of_clean coherent here fun frame before => ?_)
    cases writer : frame.page.dirtier with
    | none => rfl
    | some other =>
      -- The writer has held the page exclusively, and so has the transaction once it was readied.
      have still := (readies.dirty_iff writer).2 before
      obtain rfl := (guarded.readies readies).writer_eq still writer exclusive
      exact absurd ((s.mem_pagesDirtiedBy other _).2 ⟨frame, before, writer⟩) clean
  · have same : old.page.before = Bytes.zeros into.pageSize :=
      congrArg Page.bytes (owns.stores.unique stores)
    rw [same]
    exact .absent listed' missing

/-- Others have no writes on a page that a transaction holds exclusively. -/
theorem Owns.not_dirtied (owns : Owns txn page bytes s) (guarded : Guarded s)
    (ne : other ≠ txn) : page ∉ s.pagesDirtiedBy other := by
  intro mem
  obtain ⟨frame, cached, writes⟩ := (s.mem_pagesDirtiedBy other page).1 mem
  exact ne (guarded.writer_eq cached writes owns.exclusive)

/-! ## Pages as they are stored -/

/-- A page that is not dirty, with the bytes that its file holds of it. -/
structure Rests (page : PageId) (bytes : Bytes) (s : Store) : Prop where
  stores : s.Stores page (.ofStored page bytes)
  clean : ∀ txn, page ∉ s.pagesDirtiedBy txn

/-- A page that rests stays clean while no frame of it with writes is new. -/
theorem Rests.clean_of (rests : Rests page bytes s)
    (before : ∀ frame writer, after.cache.get? page = some frame →
      frame.page.dirtier = some writer → s.cache.get? page = some frame) (writer : TxnId) :
    page ∉ after.pagesDirtiedBy writer := by
  intro mem
  obtain ⟨frame, cached, writes⟩ := (after.mem_pagesDirtiedBy writer page).1 mem
  exact rests.clean writer
    ((s.mem_pagesDirtiedBy writer page).2 ⟨frame, before frame writer cached writes, writes⟩)

theorem Owns.rests (owns : Owns txn page bytes s) (guarded : Guarded s) :
    Rests page bytes (s.abort txn) where
  stores := by
    rw [abort_eq]
    exact owns.stores
  clean other mem := by
    obtain ⟨frame, cached, writes⟩ := ((s.abort txn).mem_pagesDirtiedBy other page).1 mem
    obtain ⟨before, foreign⟩ := get?_abort_eq_some.1 cached
    obtain rfl := guarded.writer_eq before writes owns.exclusive
    exact foreign writes

/-- Pages that come and go leave a page that is not dirty so. -/
theorem Rests.readies (rests : Rests page bytes s) (coherent : Coherent s)
    (readies : Readies txn s after) : Rests page bytes after where
  stores := readies.stores coherent.catalog rests.stores
  clean := rests.clean_of fun _ _ cached writes => (readies.dirty_iff writes).1 cached

theorem Rests.abort (rests : Rests page bytes s) (other : TxnId) :
    Rests page bytes (s.abort other) where
  stores := by
    rw [abort_eq]
    exact rests.stores
  clean := rests.clean_of fun _ _ cached _ => (get?_abort_eq_some.1 cached).1

/-- Flushing the pages that a transaction has dirtied leaves the others as they rest. -/
theorem Rests.persists {done : List PageId} (rests : Rests page bytes s)
    (persists : Persists done s after) (among : done ⊆ s.pagesDirtiedBy other) :
    Rests page bytes after where
  stores := (persists.others page _ (.inl fun mem => rests.clean other (among mem))).2 rests.stores
  clean := rests.clean_of fun _ _ cached writes => (persists.dirty cached writes).2

/-- Who fetches the page gets it as it is stored. -/
theorem Rests.fetch_eq (rests : Rests page bytes s) (coherent : Coherent s)
    (fetched : fetch reader page mode s = .ok frame after) : frame.page = .ofStored page bytes := by
  obtain ⟨fetches, cached, -⟩ := (fetch_leads s reader page mode).of_ok fetched
  have rests := rests.readies coherent (.fetches fetches)
  have clean : frame.page.dirtier = none := by
    cases writer : frame.page.dirtier with
    | none => rfl
    | some other =>
      exact absurd ((after.mem_pagesDirtiedBy other page).2 ⟨frame, cached, writer⟩)
        (rests.clean other)
  have faithful := (coherent.turnover fetches.toTurnover).faithful page frame cached
  exact rests.stores.unique (faithful.stores clean)

end Store

open Store

namespace Report

/-- Whether a report tells that a transaction has ended. -/
def ends (txn : TxnId) : Report → Bool
  | committed other | notCommitted other _ | aborted other => other == txn
  | quiet | begun _ | halted _ | stopped .. | answered .. => false

/-- Whether a report tells of a change on a page. -/
def rewrites (page : PageId) : Report → Bool
  | answered _ answer => answer.change?.any fun change => change.record.page == page
  | quiet | begun _ | halted _ | stopped .. | committed _ | notCommitted .. | aborted _ => false

end Report

namespace System

variable {s after : Store} {action : Action} {report : Report} {txn : TxnId} {page : PageId}
  {bytes : Bytes}

/-! ## What transactions leave of a page -/

theorem not_flush (transactional : action.isTransactional = true) : ¬ action.isFlush = true := by
  cases action with
  | flushPages txn => cases transactional
  | flushAll => cases transactional
  | _ => nofun

/-- While a transaction goes on, a page that it holds exclusively stays its own and is stored as it
was. -/
theorem Moves.owns (moves : Moves s action report after) (coherent : s.Coherent)
    (guarded : s.Guarded) (transactional : action.isTransactional = true)
    (goesOn : report.ends txn = false) (owns : Owns txn page bytes s) :
    Owns txn page bytes after := by
  have readied {other : TxnId} {readied : Store} (readies : Readies other s readied) :
      Owns txn page bytes readied :=
    ⟨(readies.stays owns.exclusive).elim id id, readies.stores coherent.catalog owns.stores⟩
  have ended {other : TxnId} {done : List PageId} {flushed : Store}
      (persists : Persists done s flushed) (among : done ⊆ s.pagesDirtiedBy other)
      (ne : other ≠ txn) :
      (flushed.locks.releaseAll other).mode? txn page = some .exclusive ∧
        flushed.Stores page (.ofStored page bytes) := by
    have absent : page ∉ done := fun mem => owns.not_dirtied guarded ne (among mem)
    refine ⟨?_, (persists.others page _ (.inl absent)).2 owns.stores⟩
    rw [persists.locks, guarded.locks.mode?_releaseAll, if_neg ne.symm, owns.exclusive]
  cases moves with
  | readies readies _ => exact readied readies
  | alters _ alters =>
    obtain ⟨_, readies, rewrites⟩ := alters
    have owns := readied readies
    cases rewrites
    exact ⟨owns.exclusive, owns.stores⟩
  | commits persists =>
    have ended := ended persists (List.Subset.refl _) (beq_eq_false_iff_ne.1 goesOn)
    exact ⟨ended.1, ended.2⟩
  | fails persists among =>
    have ended := ended persists among (beq_eq_false_iff_ne.1 goesOn)
    rw [abort_eq]
    exact ⟨ended.1, ended.2⟩
  | @aborts other =>
    have ended := ended (.refl s) (List.nil_subset (s.pagesDirtiedBy other))
      (beq_eq_false_iff_ne.1 goesOn)
    rw [abort_eq]
    exact ⟨ended.1, ended.2⟩
  | flushes flush _ => exact absurd flush (not_flush transactional)
  | discards => cases transactional
  | releases => cases transactional

/-- While a transaction goes on, its writes on a page stay in the cache. -/
theorem Moves.dirtied (moves : Moves s action report after) (guarded : s.Guarded)
    (transactional : action.isTransactional = true) (goesOn : report.ends txn = false)
    (dirty : page ∈ s.pagesDirtiedBy txn) : page ∈ after.pagesDirtiedBy txn := by
  obtain ⟨frame, cached, writes⟩ := (s.mem_pagesDirtiedBy txn page).1 dirty
  have kept (now : after.cache.get? page = some frame) : page ∈ after.pagesDirtiedBy txn :=
    (after.mem_pagesDirtiedBy txn page).2 ⟨frame, now, writes⟩
  cases moves with
  | readies readies _ => exact kept ((readies.dirty_iff writes).2 cached)
  | @alters writer answer change _ made alters =>
    obtain ⟨readied, readies, rewrites⟩ := alters
    have still := (readies.dirty_iff writes).2 cached
    obtain ⟨now, own, look⟩ := rewrites.get?_eq
    by_cases here : page = change.record.page
    · subst here
      have same : txn = writer := by
        rcases rewrites with ⟨listed, cached', id, exclusive, changes⟩
        exact (guarded.readies readies).writer_eq still writes exclusive
      exact (after.mem_pagesDirtiedBy txn _).2 ⟨now, by rw [look, if_pos rfl], same ▸ own⟩
    · exact kept (by rw [look, if_neg here, still])
  | commits persists =>
    exact kept ((persists.others_iff (List.Subset.refl _) writes
      (beq_eq_false_iff_ne.1 goesOn).symm).2 cached)
  | fails persists among =>
    have ne := beq_eq_false_iff_ne.1 goesOn
    exact kept (get?_abort_of_ne ((persists.others_iff among writes ne.symm).2 cached) writes ne)
  | aborts => exact kept (get?_abort_of_ne cached writes (beq_eq_false_iff_ne.1 goesOn))
  | flushes flush _ => exact absurd flush (not_flush transactional)
  | discards => cases transactional
  | releases => cases transactional

/-- A page gets dirty with a transaction's writes by a change of that transaction alone. -/
theorem Moves.alters_of_dirty (moves : Moves s action report after)
    (clean : page ∉ s.pagesDirtiedBy txn) (dirty : page ∈ after.pagesDirtiedBy txn) :
    ∃ record row, record.page = page ∧ Store.Alters txn record row s after := by
  obtain ⟨frame, cached, writes⟩ := (after.mem_pagesDirtiedBy txn page).1 dirty
  have before (was : s.cache.get? page = some frame) :
      ∃ record row, record.page = page ∧ Store.Alters txn record row s after :=
    absurd ((s.mem_pagesDirtiedBy txn page).2 ⟨frame, was, writes⟩) clean
  cases moves with
  | readies readies _ => exact before ((readies.dirty_iff writes).1 cached)
  | @alters writer answer change _ made alters =>
    obtain ⟨readied, readies, rewrites⟩ := alters
    obtain ⟨now, own, look⟩ := rewrites.get?_eq
    rw [look] at cached
    split at cached
    · next here =>
      cases cached
      obtain rfl : txn = writer := Option.some.inj (writes.symm.trans own)
      exact ⟨change.record, change.row, here.symm, readied, readies, rewrites⟩
    · exact before ((readies.dirty_iff writes).1 cached)
  | commits persists => exact before (persists.dirty cached writes).2
  | fails persists _ => exact before (persists.dirty (get?_abort_eq_some.1 cached).1 writes).2
  | aborts => exact before (get?_abort_eq_some.1 cached).1
  | flushes _ persists => exact before (persists.dirty cached writes).2
  | discards => exact before (get?_of_dropPage cached)
  | releases => exact before cached

/-- A page that is not dirty stays so, and is stored as it was, until a transaction changes it. -/
theorem Moves.resting (moves : Moves s action report after) (coherent : s.Coherent)
    (transactional : action.isTransactional = true) (same : report.rewrites page = false)
    (rests : Rests page bytes s) : Rests page bytes after := by
  cases moves with
  | readies readies _ => exact rests.readies coherent readies
  | @alters writer answer change _ made alters =>
    obtain ⟨readied, readies, rewrites⟩ := alters
    have rests := rests.readies coherent readies
    obtain ⟨now, -, look⟩ := rewrites.get?_eq
    have apart : page ≠ change.record.page := by
      rintro rfl
      simp [Report.rewrites, made] at same
    refine ⟨?_, rests.clean_of fun frame writer cached _ => ?_⟩
    · cases rewrites
      exact rests.stores
    · rwa [look, if_neg apart] at cached
  | commits persists =>
    have rests := rests.persists persists (List.Subset.refl _)
    exact ⟨rests.stores, rests.clean⟩
  | fails persists among => exact (rests.persists persists among).abort _
  | aborts => exact rests.abort _
  | flushes flush _ => exact absurd flush (not_flush transactional)
  | discards => cases transactional
  | releases => cases transactional

end System

end PageStore
