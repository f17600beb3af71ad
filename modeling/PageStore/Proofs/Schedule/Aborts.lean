import Mathlib.Data.List.Perm.Subperm
import PageStore.Database
import PageStore.Proofs.Schedule.Commits
import PageStore.Proofs.Schedule.Owned

/-!
# What an abort takes back

An abort drops the pages with its transaction's writes and gives back the locks
(`Store.Undoes`).  It writes nothing, so what is read of a dropped page from then on is what its file
holds.  That is what the page had just before the transaction came to write it, since the page has
been the transaction's own from that moment (`System.Since.owns`).
-/

namespace PageStore

namespace Store

variable {s : Store} {txn : TxnId} {page : PageId} {bytes : Bytes}

/-! ## Dropping writes -/

/-- A store after a transaction was aborted.  The pages that were dirty with its writes are gone from
the cache, it holds nothing, and all else is as it was: files and log, the other cached pages, and
what the others hold and ask for. -/
structure Undoes (txn : TxnId) (s after : Store) : Prop where
  catalog : after.catalog = s.catalog
  disk : after.disk = s.disk
  journal : after.journal = s.journal
  dropped : ∀ page, page ∈ s.pagesDirtiedBy txn → after.cache.get? page = none
  others : ∀ page, page ∉ s.pagesDirtiedBy txn → after.cache.get? page = s.cache.get? page
  locks : s.locks.Ends txn after.locks

theorem undoes_abort (consistent : s.locks.Consistent) (txn : TxnId) :
    Undoes txn s (s.abort txn) where
  catalog := by rw [abort_eq]
  disk := by rw [abort_eq]
  journal := by rw [abort_eq]
  dropped page mem := by
    obtain ⟨frame, cached, dirty⟩ := (s.mem_pagesDirtiedBy txn page).1 mem
    rw [get?_abort, cached, Option.filter_some, if_neg]
    simp [dirty]
  others page absent := get?_abort_other absent rfl
  locks := by
    rw [abort_eq]
    exact consistent.ends_releaseAll txn

/-! ## Reading a page that was dropped -/

/-- Dropping a page makes room. -/
theorem size_abort_lt (dirty : page ∈ s.pagesDirtiedBy txn) :
    (s.abort txn).cache.size < s.cache.size := by
  obtain ⟨frame, cached, writes⟩ := (s.mem_pagesDirtiedBy txn page).1 dirty
  have gone : page ∉ (s.abort txn).cache.keys := by
    intro mem
    obtain ⟨kept, here⟩ := Option.isSome_iff_exists.1 (Dictionary.mem_keys_iff.1 mem)
    obtain ⟨before, foreign⟩ := get?_abort_eq_some.1 here
    rw [cached] at before
    cases before
    exact foreign writes
  have among : page :: (s.abort txn).cache.keys ⊆ s.cache.keys := by
    intro place mem
    rcases List.mem_cons.1 mem with rfl | mem
    · exact Dictionary.mem_keys_iff.2 (by rw [cached]; rfl)
    · obtain ⟨kept, here⟩ := Option.isSome_iff_exists.1 (Dictionary.mem_keys_iff.1 mem)
      exact Dictionary.mem_keys_iff.2 (by rw [(get?_abort_eq_some.1 here).1]; rfl)
  have distinct := List.nodup_cons.2 ⟨gone, (s.abort txn).cache.nodup_keys⟩
  have fewer := (distinct.subperm among).length_le
  rwa [List.length_cons, Dictionary.length_keys, Dictionary.length_keys] at fewer

/-- After an abort anybody can fetch a page that it has dropped: nobody holds the page, and there is
room for it. -/
theorem exists_fetch_of_aborted (owns : Owns txn page bytes s) (consistent : s.locks.Consistent)
    (fits : s.Fits s.capacity) (dirty : page ∈ s.pagesDirtiedBy txn) (reader : TxnId)
    (mode : LockMode) : ∃ frame after, fetch reader page mode (s.abort txn) = .ok frame after := by
  have undoes := undoes_abort consistent txn
  have free (other : TxnId) : (s.abort txn).locks.mode? other page = none := by
    rcases eq_or_ne other txn with rfl | ne
    · exact undoes.locks.free page
    · rw [undoes.locks.modes other page ne, ← Option.not_isSome_iff_eq_none]
      exact fun held => ne ((consistent.exclusive page).eq_of_mode? owns.exclusive held)
  obtain ⟨locked, granted⟩ := acquire_ok (LockTable.acquire_of_free free mode _)
  have stores : (s.abort txn).Stores page (.ofStored page bytes) := by
    rw [abort_eq]
    exact owns.stores
  rcases fetch_missing stores (undoes.dropped page dirty) granted with ⟨full, -, -⟩ | ⟨-, fetched⟩
  · have room := Nat.lt_of_lt_of_le (size_abort_lt dirty) fits.size
    have capacity : (s.abort txn).capacity = s.capacity := by rw [abort_eq]
    exact absurd (capacity ▸ full) (Nat.not_le_of_lt room)
  · exact fetched

end Store

open Store

namespace System

variable {after : Store} {start before sys : System} {action : Action} {reports : List Report}
  {txn : TxnId} {page : PageId} {bytes : Bytes} {begins : System → Action → Prop}

/-! ## Since a transaction came to a page -/

/-- A moment just after which an action was taken that a transaction has gone on since.  Only
transactions act. -/
inductive Since (begins : System → Action → Prop) (txn : TxnId) (start before : System) :
    System → Prop
  | first {reports : List Report} {action : Action}
      (run : Run (fun _ action => action.isTransactional = true) start reports before)
      (transactional : action.isTransactional = true) (first : begins before action) :
      Since begins txn start before (before.act action).2
  | act {sys : System} (since : Since begins txn start before sys) (action : Action)
      (transactional : action.isTransactional = true)
      (goesOn : (sys.act action).1.ends txn = false) :
      Since begins txn start before (sys.act action).2

/-- An action by which a page gets dirty with a transaction's writes. -/
def Dirties (txn : TxnId) (page : PageId) (sys : System) (action : Action) : Prop :=
  page ∉ sys.store.pagesDirtiedBy txn ∧ page ∈ (sys.act action).2.store.pagesDirtiedBy txn

/-- An action by which a transaction appends a page. -/
def Adds (txn : TxnId) (page : PageId) (sys : System) (action : Action) : Prop :=
  action = .advance txn ∧ (∀ stored, ¬ sys.store.Stores page stored) ∧
    ∃ stored, (sys.act action).2.store.Stores page stored

/-- While only transactions act, whoever has writes on a page holds it exclusively. -/
theorem Run.guarded_of_transactional
    (run : Run (fun _ action => action.isTransactional = true) start reports sys)
    (fresh : start.Fresh) : sys.store.Guarded :=
  (run.mono fun _ _ transactional => (spares_of_transactional transactional).1.keepsWrites).guarded
    fresh

theorem Since.steady (since : Since begins txn start before sys) (fresh : start.Fresh) :
    sys.Steady ∧ sys.store.Guarded := by
  have acts {sys : System} {action : Action} (steady : sys.Steady) (guarded : sys.store.Guarded)
      (transactional : action.isTransactional = true) :
      (sys.act action).2.Steady ∧ (sys.act action).2.store.Guarded :=
    ⟨steady.act action, (act_moves steady action).guarded guarded
      (spares_of_transactional transactional).1.keepsWrites⟩
  induction since with
  | first run transactional _ =>
    exact acts (run.steady fresh) (run.guarded_of_transactional fresh) transactional
  | act _ action transactional _ ih => exact acts ih.1 ih.2 transactional

/-- What a transaction owns at first it owns as long as it goes on. -/
theorem Since.owns {known : Bytes → Prop} (since : Since begins txn start before sys)
    (fresh : start.Fresh)
    (first : ∀ action, before.Steady → before.store.Guarded → begins before action →
      ∃ bytes, known bytes ∧ Owns txn page bytes (before.act action).2.store) :
    ∃ bytes, known bytes ∧ Owns txn page bytes sys.store := by
  induction since with
  | first run _ begins =>
    exact first _ (run.steady fresh) (run.guarded_of_transactional fresh) begins
  | act since action transactional goesOn ih =>
    obtain ⟨bytes, this, owns⟩ := ih
    obtain ⟨steady, guarded⟩ := since.steady fresh
    exact ⟨bytes, this, (act_moves steady action).owns steady.coherent guarded transactional goesOn
      owns⟩

theorem Dirties.owns (dirties : Dirties txn page sys action) (steady : sys.Steady)
    (guarded : sys.store.Guarded) :
    ∃ bytes, sys.store.Had page bytes ∧ Owns txn page bytes (sys.act action).2.store := by
  obtain ⟨record, row, rfl, alters⟩ :=
    (act_moves steady action).alters_of_dirty dirties.1 dirties.2
  exact alters.owns steady.coherent guarded dirties.1

/-- A page that is appended is owned, and is stored as zeros. -/
theorem Adds.owns (adds : Adds txn page sys action) (steady : sys.Steady) :
    ∃ file, sys.store.catalog.file page.table = .ok file ∧
      Owns txn page (Bytes.zeros file.pageSize) (sys.act action).2.store := by
  obtain ⟨rfl, missing, stored, there⟩ := adds
  cases halted : sys.calls.get? txn with
  | none =>
    have idle : (sys.act (.advance txn)).2 = sys := by simp only [System.act, halted]
    rw [idle] at there
    exact absurd there (missing stored)
  | some call =>
    have advanced : (sys.act (.advance txn)).2.store = Op.final (call.advance txn sys.store) := by
      simp only [System.act, halted, System.advance]
      cases call.advance txn sys.store with
      | ok ends store => cases ends <;> rfl
      | error stop store => cases stop <;> rfl
    obtain ⟨readied, readies, catalog, disk, locks⟩ :=
      call.advance_readies steady.coherent txn (steady.registered txn call halted)
    rw [← advanced] at catalog disk locks
    have stores (other : Page) : (sys.act (.advance txn)).2.store.Stores page other ↔
        readied.Stores page other := by
      unfold Stores
      rw [catalog, disk]
    rcases readies.stores_cases steady.coherent ((stores stored).1 there) with
      before | ⟨file, listed, -, owns⟩
    · exact absurd before (missing stored)
    · exact ⟨file, listed, locks ▸ owns.exclusive, (stores _).2 owns.stores⟩

theorem Since.dirty (since : Since (Dirties txn page) txn start before sys) (fresh : start.Fresh) :
    page ∈ sys.store.pagesDirtiedBy txn := by
  induction since with
  | first run transactional begins => exact begins.2
  | act since action transactional goesOn ih =>
    obtain ⟨steady, guarded⟩ := since.steady fresh
    exact (act_moves steady action).dirtied guarded transactional goesOn ih

/-- The writes on a page date from a moment, if the transaction has not ended yet. -/
theorem Run.exists_since (run : Run (fun _ action => action.isTransactional = true) start reports sys)
    (fresh : start.Fresh) (goesOn : ∀ report ∈ reports, report.ends txn = false)
    (dirty : page ∈ sys.store.pagesDirtiedBy txn) :
    ∃ before, Since (Dirties txn page) txn start before sys := by
  induction run with
  | nil =>
    obtain ⟨frame, cached, -⟩ := (start.store.mem_pagesDirtiedBy txn page).1 dirty
    rw [fresh.cache] at cached
    cases cached
  | @act reports sys run action transactional ih =>
    by_cases earlier : page ∈ sys.store.pagesDirtiedBy txn
    · obtain ⟨before, since⟩ :=
        ih (fun report mem => goesOn report (List.mem_append_left _ mem)) earlier
      exact ⟨before, since.act action transactional
        (goesOn _ (List.mem_append_right _ (List.mem_singleton_self _)))⟩
    · exact ⟨sys, .first run transactional ⟨earlier, dirty⟩⟩

/-! ## What is read after an abort -/

/-- A store after a transaction was ended by an abort, or because nobody refers to it any more. -/
inductive Aborted (txn : TxnId) (s : Store) : Store → Prop
  | acts {sys : System} (store : sys.store = s) (free : sys.isFree txn = true) :
      Aborted txn s (sys.act (.abort txn)).2.store
  | aborts {db : Database} (store : db.store = s) : Aborted txn s (db.abort txn).store
  | drops {db : Database} (store : db.store = s) (running : txn ∈ db.running) :
      Aborted txn s (db.drop txn).store

theorem Aborted.eq (aborted : Aborted txn s after) : after = s.abort txn := by
  cases aborted with
  | acts store free =>
    simp only [System.act, free, if_true, store]
  | aborts store => rw [Database.abort, store]
  | drops store running => rw [Database.drop, if_pos running, Database.abort, store]

/-- Whoever fetches a page gets these bytes, until a transaction changes the page. -/
def ReadsAs (sys : System) (page : PageId) (bytes : Bytes) : Prop :=
  ∀ reports later, Run (fun _ action => action.isTransactional = true) sys reports later →
    (∀ report ∈ reports, report.rewrites page = false) →
    ∀ reader mode frame after, Store.fetch reader page mode later.store = .ok frame after →
      frame.page = .ofStored page bytes

theorem readsAs_of_rests (steady : sys.Steady) (rests : Rests page bytes sys.store) :
    sys.ReadsAs page bytes := by
  intro reports later run unchanged reader mode frame after fetched
  suffices goesOn : later.Steady ∧ Rests page bytes later.store from
    goesOn.2.fetch_eq goesOn.1.coherent fetched
  clear fetched
  induction run with
  | nil => exact ⟨steady, rests⟩
  | act run action transactional ih =>
    obtain ⟨steady, rests⟩ := ih fun report mem => unchanged report (List.mem_append_left _ mem)
    have same := unchanged _ (List.mem_append_right _ (List.mem_singleton_self _))
    exact ⟨steady.act action,
      (act_moves steady action).resting steady.coherent transactional same rests⟩

/-- An abort leaves what its transaction owned as it is stored. -/
theorem readsAs_abort (owns : Owns txn page bytes sys.store) (steady : sys.Steady)
    (guarded : sys.store.Guarded) :
    ReadsAs { sys with store := sys.store.abort txn } page bytes := by
  have registered := steady.registered
  have catalog : (sys.store.abort txn).catalog = sys.store.catalog := by rw [abort_eq]
  rw [← catalog] at registered
  exact readsAs_of_rests ⟨steady.coherent.abort txn, registered⟩ (owns.rests guarded)

/-- To abort a transaction that has not ended, or to let go of it, undoes what it did and nothing
else.  Its writes are those on the pages that it has come to write; what a page had just before that
is what anybody reads of it after the abort, until it is changed again.  A page that the transaction
has appended is read as zeros. -/
theorem abort_rolls_back (fresh : start.Fresh)
    (run : Run (fun _ action => action.isTransactional = true) start reports sys)
    (goesOn : ∀ report ∈ reports, report.ends txn = false)
    (aborted : Aborted txn sys.store after) :
    Undoes txn sys.store after ∧
    (∀ page, page ∈ sys.store.pagesDirtiedBy txn ↔
      ∃ before, Since (Dirties txn page) txn start before sys) ∧
    (∀ page before, Since (Dirties txn page) txn start before sys →
      ∃ bytes, before.store.Had page bytes ∧
        (∀ reader mode, ∃ frame last, Store.fetch reader page mode after = .ok frame last ∧
          frame.page = .ofStored page bytes) ∧
        ReadsAs { sys with store := after } page bytes) ∧
    ∀ page before, Since (Adds txn page) txn start before sys →
      ∃ file, before.store.catalog.file page.table = .ok file ∧
        ReadsAs { sys with store := after } page (Bytes.zeros file.pageSize) := by
  obtain rfl := aborted.eq
  have steady := run.steady fresh
  have guarded := run.guarded_of_transactional fresh
  have within := (run.reaches.fits fresh.fits)
  have fits : sys.store.Fits sys.store.capacity := within.capacity.symm ▸ within
  refine ⟨undoes_abort guarded.locks txn, fun page => ⟨run.exists_since fresh goesOn, ?dirty⟩,
    fun page before since => ?restores, fun page before since => ?zeros⟩
  case dirty =>
    rintro ⟨before, since⟩
    exact since.dirty fresh
  case restores =>
    obtain ⟨bytes, had, owns⟩ := since.owns fresh fun action steady guarded dirties =>
      dirties.owns steady guarded
    have reads := readsAs_abort owns steady guarded
    refine ⟨bytes, had, fun reader mode => ?_, reads⟩
    obtain ⟨frame, last, fetched⟩ :=
      exists_fetch_of_aborted owns guarded.locks fits (since.dirty fresh) reader mode
    exact ⟨frame, last, fetched, reads [] _ .nil nofun reader mode frame last fetched⟩
  case zeros =>
    have added (action : Action) (steady : before.Steady) (_ : before.store.Guarded)
        (adds : Adds txn page before action) :
        ∃ bytes, (∃ file, before.store.catalog.file page.table = .ok file ∧
            bytes = Bytes.zeros file.pageSize) ∧
          Owns txn page bytes (before.act action).2.store := by
      obtain ⟨file, listed, owns⟩ := adds.owns steady
      exact ⟨_, ⟨file, listed, rfl⟩, owns⟩
    obtain ⟨_, ⟨file, listed, rfl⟩, owns⟩ := since.owns fresh added
    exact ⟨file, listed, readsAs_abort owns steady guarded⟩

/-- The statement above for a transaction that has appended a page for a row and has deleted another
row, while a third transaction waits for the page of that. -/
theorem abort_rolls_back_of_append_and_deletion :
    let kept : PageId := ⟨smallFile.table, 0⟩
    let added : PageId := ⟨smallFile.table, 1⟩
    let actions : List Action := [.begin, .demand 0 (.insert smallFile.table ⟨[.int 7], none⟩),
      .advance 0, .commit 0, .begin, .demand 1 (.insert smallFile.table ⟨[.int 8], none⟩),
      .advance 1, .advance 1, .demand 1 (.delete ⟨[.int 7], some ⟨kept, 0⟩⟩), .advance 1, .begin,
      .demand 2 (.fetch kept .shared), .advance 2]
    let sys := small.acts actions
    let ended := (sys.act (.abort 1)).2
    sys.store.pagesDirtiedBy 1 = [kept, added] ∧ sys.store.locks.isWaiting 2 = true ∧
      Undoes 1 sys.store ended.store ∧
      (∃ before, Since (Dirties 1 kept) 1 small before sys ∧
        before.store.Had kept [1, 0, 0, 0, 7, 0, 0, 0]) ∧
      ∃ before, Since (Dirties 1 added) 1 small before sys ∧
        before.store.Had added [0, 0, 0, 0, 0, 0, 0, 0] := by
  intro kept added actions sys ended
  have transactional : actions.all Action.isTransactional = true := rfl
  have run : Run (fun _ action => action.isTransactional = true) small (small.hears actions) sys :=
    run_acts small fun action mem _ => List.all_eq_true.1 transactional action mem
  have goesOn : ∀ report ∈ small.hears actions, report.ends 1 = false := by decide +kernel
  have aborted : Aborted 1 sys.store ended.store := .acts rfl (by decide +kernel)
  have dirty : sys.store.pagesDirtiedBy 1 = [kept, added] := by decide +kernel
  obtain ⟨undoes, dates, restores, -⟩ := abort_rolls_back small_fresh run goesOn aborted
  have had {page : PageId} {bytes : Bytes} (mem : page ∈ sys.store.pagesDirtiedBy 1)
      (reads : (Op.answer (Store.fetch 2 page .shared ended.store)).map Frame.page =
        .ok (.ofStored page bytes)) :
      ∃ before, Since (Dirties 1 page) 1 small before sys ∧ before.store.Had page bytes := by
    obtain ⟨before, since⟩ := (dates page).1 mem
    obtain ⟨found, had, fetches, -⟩ := restores page before since
    obtain ⟨frame, last, fetched, same⟩ := fetches 2 .shared
    rw [fetched] at reads
    have bytes : found = bytes :=
      congrArg Page.bytes (same.symm.trans (Except.ok.inj reads))
    exact ⟨before, since, bytes ▸ had⟩
  exact ⟨dirty, by decide +kernel, undoes, had (by rw [dirty]; simp) (by decide +kernel),
    had (by rw [dirty]; simp) (by decide +kernel)⟩

end System

end PageStore
