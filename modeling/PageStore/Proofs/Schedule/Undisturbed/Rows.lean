import PageStore.Proofs.Schedule.Undisturbed.Basic

/-!
# Rows of one's own tables

Storing a row in a page of an own table, and freeing the slot of a record, do the same on stores that
agree there (`Ready.storeInPage`, `Ready.freeInPage`): the page is fetched in both, and is then
rewritten alike (`Ready.rewrite`).

An append locks a page that nobody holds and writes it, in the same place in both stores, before it
fetches it (`Undisturbed.appendPage_eq`).  It is the one step that needs room for a page that is not
there yet.
-/

namespace PageStore.Store

variable {mine : TableId → Prop} {txn : TxnId} {space : PageId → Prop}
  {s t u v after after' : Store} {page place : PageId} {frame frame' : Frame} {file : HeapFile}
  {row : Row} {record : RecordId} {changed : Page} {mode : LockMode}

/-! ## Appending -/

/-- An undisturbed transaction comes to fetch the page that it appends, and has only added that page
until then. -/
theorem Undisturbed.appendPage_eq (undisturbed : Undisturbed mine txn space s)
    (own : mine file.table) (listed : s.catalog.file file.table = .ok file)
    (new : space ⟨file.table, file.pageCount s.disk⟩) :
    let page : PageId := ⟨file.table, file.pageCount s.disk⟩
    ∃ granted locks disk, (s.locks.holders page).grant txn .exclusive = .ok granted ∧
      s.locks.Puts txn page granted locks ∧
      file.Writes page (Bytes.zeros file.pageSize) s.disk disk ∧
      Works mine txn s { s with locks := locks, disk := disk } ∧
      Within space { s with locks := locks, disk := disk } ∧
      appendPage file txn s = fetch txn page .exclusive { s with locks := locks, disk := disk } := by
  intro page
  obtain ⟨locks, disk, ⟨asked, -, widens, -, writes, readies, builds⟩, same⟩ :=
    undisturbed.grounded.appendPage_eq listed txn
  have sound := (undisturbed.coherent.catalog _ _ listed).2
  rcases LockTable.acquire_grants_or_keeps s.locks txn page .exclusive (s.overdue txn) with
    ⟨granted, ok, -⟩ | ⟨not, -⟩
  · obtain ⟨locks', asked', puts⟩ := LockTable.acquire_of_grant ok (s.overdue txn)
    rw [asked] at asked'
    cases asked'
    refine ⟨granted, locks, disk, ok, puts, writes, ⟨⟨rfl, rfl, ?_, fun _ _ => rfl, ?_⟩, builds,
      undisturbed.coherent.readies readies, widens.consistent undisturbed.locks, undisturbed.sure,
      widens.others, puts.waits, fun _ _ _ _ here _ => here, rfl⟩, ?_, same⟩
    · intro table other foreign listed'
      have own' := (undisturbed.coherent.catalog _ _ listed').1
      refine writes.bytes_other ?_
      refine undisturbed.coherent.catalog.path_ne listed (own' ▸ listed') fun here => foreign ?_
      rwa [← own', here]
    · intro place foreign
      exact puts.elsewhere place fun here => foreign (here ▸ own)
    · rintro place ⟨other, listed', inside⟩
      rcases eq_or_ne place.table file.table with here | apart
      · rw [here, listed] at listed'
        cases listed'
        rcases Nat.lt_succ_iff_lt_or_eq.1 (writes.pageCount_next sound.pageSize_pos ▸ inside) with
          before | last
        · exact undisturbed.within place ⟨file, here ▸ listed, before⟩
        · rcases place with ⟨table, number⟩
          subst here last
          exact new
      · refine undisturbed.within place ⟨other, listed', ?_⟩
        have own' := (undisturbed.coherent.catalog _ _ listed').1
        have bytes := writes.bytes_other (undisturbed.coherent.catalog.path_ne listed
          (own' ▸ listed') fun here => apart (own' ▸ here))
        unfold HeapFile.pageCount at inside ⊢
        rwa [← bytes]
  · rw [asked] at not
    exact absurd rfl not

/-- Appending a page to an own table does the same on stores that agree there. -/
theorem Ready.appendPage (ready : Ready mine txn space s t) (own : mine file.table)
    (listed : s.catalog.file file.table = .ok file)
    (new : space ⟨file.table, file.pageCount s.disk⟩) :
    Same mine txn space (appendPage file txn) (appendPage file txn) s t
      fun frame frame' _ _ => frame'.page = frame.page := by
  have listed' : t.catalog.file file.table = .ok file := by rw [ready.agree.catalog, listed]
  have count := ready.agree.pageCount own listed
  obtain ⟨granted, locks, disk, ok, puts, writes, works, within, same⟩ :=
    ready.first.appendPage_eq own listed new
  obtain ⟨granted', locks', disk', ok', puts', writes', works', within', same'⟩ :=
    ready.second.appendPage_eq own listed' (count ▸ new)
  rw [count] at ok' puts' writes' same'
  rw [ready.agree.holders _ own, ok] at ok'
  cases ok'
  have agree : Agree mine { s with locks := locks, disk := disk }
      { t with locks := locks', disk := disk' } := by
    refine ⟨ready.agree.catalog, ready.agree.overdue, fun table other own' listed'' => ?_,
      ready.agree.cached, fun place own' => ?_⟩
    · have bytes := ready.agree.files table other own' listed''
      rcases eq_or_ne other.path file.path with here | apart
      · rw [here] at bytes ⊢
        show disk'.read file.path = disk.read file.path
        rw [writes'.bytes_eq, writes.bytes_eq, bytes]
      · exact (writes'.bytes_other apart).trans (bytes.trans (writes.bytes_other apart).symm)
    · rcases eq_or_ne place ⟨file.table, file.pageCount s.disk⟩ with rfl | ne
      · exact puts'.here.trans puts.here.symm
      · exact (puts'.elsewhere place ne).trans
          ((ready.agree.holders place own').trans (puts.elsewhere place ne).symm)
  have apart {store : Store} (undisturbed : Undisturbed mine txn space store)
      (known : store.catalog.file file.table = .ok file) {path : String}
      (log : store.journal.path? = some path) : path ≠ file.path := by
    rintro rfl
    exact undisturbed.coherent.apart _ _ known log
  have pair : Pair mine txn s t { s with locks := locks, disk := disk }
      { t with locks := locks', disk := disk' } :=
    ⟨works, works', agree, enters_nothing rfl rfl
      (fun path log => writes.bytes_other (apart ready.first listed log))
      fun path log => writes'.bytes_other (apart ready.second listed' log)⟩
  exact Same.behind pair ((pair.ready ready within within').fetch _ own .exclusive) same same'

/-! ## Rewriting -/

theorem cached?_setFrame (cached : s.cache.get? page = some frame) (id : changed.id = page)
    (place : PageId) :
    (s.setFrame { frame with page := changed }).cached? place =
      if place = page then some changed else s.cached? place := by
  have here : s.cache.get? changed.id = some frame := by rw [id, cached]
  have stays : s.setFrame { frame with page := changed } = s.withFrame _ :=
    setFrame_of_cached here rfl
  simp only [stays, cached?, withFrame, Dictionary.get?_put, id]
  split <;> rfl

/-- A transaction works on its tables by rewriting a page of one. -/
theorem Undisturbed.rewrite (undisturbed : Undisturbed mine txn space s) (own : mine page.table)
    (opened : Opened txn page frame s) (id : changed.id = page)
    (dirty : changed.dirtier = some txn) {row : Option Row}
    (rewrites : Rewrites txn record row s (s.setFrame { frame with page := changed })) :
    Works mine txn s (s.setFrame { frame with page := changed }) := by
  refine undisturbed.works_of_cache (setFrame_eq ..) (builds_setFrame ..)
    (undisturbed.coherent.rewrites rewrites) (fun place foreign => ?_)
    fun other place cached ne here writes => ?_
  · rw [cached?_setFrame opened.cached id, if_neg]
    rintro rfl
    exact foreign own
  · rw [cached?_setFrame opened.cached id] at here
    split at here
    · cases here
      exact absurd (Option.some.inj (dirty.symm.trans writes)).symm ne
    · exact here

/-- Rewriting the page of a frame in stores that agree on it does the same in both. -/
theorem Ready.rewrite (ready : Ready mine txn space s t) (own : mine page.table)
    (opened : Opened txn page frame s) (opened' : Opened txn page frame' t)
    (id : changed.id = page) (dirty : changed.dirtier = some txn) {row : Option Row}
    (rewrites : Rewrites txn record row s (s.setFrame { frame with page := changed }))
    (rewrites' : Rewrites txn record row t (t.setFrame { frame' with page := changed })) :
    Pair mine txn s t (s.setFrame { frame with page := changed })
      (t.setFrame { frame' with page := changed }) := by
  apply ready.pair_of_cache (ready.first.rewrite own opened id dirty rewrites)
    (ready.second.rewrite own opened' id dirty rewrites') (setFrame_eq ..) (setFrame_eq ..)
  intro place own'
  rw [cached?_setFrame opened.cached id, cached?_setFrame opened'.cached id,
    ready.agree.cached place own']

theorem within_setFrame (within : s.Within space) (frame : Frame) :
    (s.setFrame frame).Within space :=
  within.of_same (by rw [setFrame_eq]) (by rw [setFrame_eq])

section

variable (ready : Ready mine txn space s t) (own : mine page.table)
  (listed : s.catalog.file page.table = .ok file) (opened : Opened txn page frame s)
  (opened' : Opened txn page frame' t) (pages : frame'.page = frame.page)

include ready own listed opened opened' pages

theorem Ready.storeRow (row : Row) :
    Same mine txn space (storeRow file txn frame row) (storeRow file txn frame' row) s t
      fun stored stored' _ _ => stored' = stored := by
  have listed' : t.catalog.file page.table = .ok file := by rw [ready.agree.catalog, listed]
  have leads := storeRow_leads listed opened row
  have leads' := storeRow_leads listed' opened' row
  cases free : frame.page.firstFree? file.schema with
  | none =>
    have full : Store.storeRow file txn frame row s = .ok none s := by
      simp only [Store.storeRow, free]
    have full' : Store.storeRow file txn frame' row t = .ok none t := by
      simp only [Store.storeRow, pages, free]
    exact same_of_ok full full' ready.pair ready.first.within ready.second.within rfl
  | some slot =>
    cases stored : frame.page.insert file.schema row with
    | error e =>
      have fails : Store.storeRow file txn frame row s = .error (.failed e) s := by
        simp only [Store.storeRow, free, stored]
      have fails' : Store.storeRow file txn frame' row t = .error (.failed e) t := by
        simp only [Store.storeRow, pages, free, stored]
      exact same_of_error fails fails' ready.pair
    | ok answer =>
      rcases answer with ⟨changed, record⟩
      have stores : Store.storeRow file txn frame row s =
          .ok (some record) (s.setFrame { frame with page := changed.dirtiedBy txn }) := by
        simp only [Store.storeRow, free, stored]
      have stores' : Store.storeRow file txn frame' row t =
          .ok (some record) (t.setFrame { frame' with page := changed.dirtiedBy txn }) := by
        simp only [Store.storeRow, pages, free, stored]
      have id : (changed.dirtiedBy txn).id = page :=
        (Page.insert_changes stored).2.id.trans opened.id
      have pair := ready.rewrite own opened opened' id rfl (leads.of_ok stores).1
        (leads'.of_ok stores').1
      exact same_of_ok stores stores' pair (within_setFrame ready.first.within _)
        (within_setFrame ready.second.within _) rfl

theorem Ready.freeRecord (record : RecordId) :
    Same mine txn space (freeRecord file txn frame record) (freeRecord file txn frame' record) s t
      fun _ _ _ _ => True := by
  have listed' : t.catalog.file page.table = .ok file := by rw [ready.agree.catalog, listed]
  have leads := freeRecord_leads listed opened record
  have leads' := freeRecord_leads listed' opened' record
  cases freed : frame.page.delete file.schema record with
  | error e =>
    have fails : Store.freeRecord file txn frame record s = .error (.failed e) s := by
      simp only [Store.freeRecord, freed]
    have fails' : Store.freeRecord file txn frame' record t = .error (.failed e) t := by
      simp only [Store.freeRecord, pages, freed]
    exact same_of_error fails fails' ready.pair
  | ok changed =>
    have frees : Store.freeRecord file txn frame record s =
        .ok () (s.setFrame { frame with page := changed.dirtiedBy txn }) := by
      simp only [Store.freeRecord, freed]
    have frees' : Store.freeRecord file txn frame' record t =
        .ok () (t.setFrame { frame' with page := changed.dirtiedBy txn }) := by
      simp only [Store.freeRecord, pages, freed]
    have id : (changed.dirtiedBy txn).id = page := (Page.delete_changes freed).2.id.trans opened.id
    have pair := ready.rewrite own opened opened' id rfl (leads.of_ok frees).1
      (leads'.of_ok frees').1
    exact same_of_ok frees frees' pair (within_setFrame ready.first.within _)
      (within_setFrame ready.second.within _) trivial

end

/-! ## One page of a file -/

theorem Ready.storeInPage (ready : Ready mine txn space s t) (own : mine file.table)
    (listed : s.catalog.file file.table = .ok file) (row : Row) (number : Nat) :
    Same mine txn space (storeInPage file txn row number) (storeInPage file txn row number) s t
      fun placed placed' _ _ => placed'.map Prod.snd = placed.map Prod.snd := by
  have opens := (ready.fetch ⟨file.table, number⟩ own .exclusive).and_leads
    (fetch_opens ready.first.coherent txn _) (fetch_opens ready.second.coherent txn _)
  refine Same.bind ready opens
    fun frame frame' u v _ _ pair ready ⟨pages, ⟨_, opened⟩, _, opened'⟩ => ?_
  have listed : u.catalog.file file.table = .ok file := by rw [pair.first.builds.catalog, listed]
  refine Same.bind ready (ready.storeRow own listed opened opened' pages row)
    fun stored stored' u v _ _ _ ready same => ready.same_pure ?_
  rw [same]
  cases stored <;> rfl

theorem Ready.freeInPage (ready : Ready mine txn space s t) (own : mine record.page.table)
    (listed : s.catalog.file record.page.table = .ok file) :
    Same mine txn space (freeInPage file txn record) (freeInPage file txn record) s t
      fun _ _ _ _ => True := by
  have opens := (ready.fetch record.page own .exclusive).and_leads
    (fetch_opens ready.first.coherent txn _) (fetch_opens ready.second.coherent txn _)
  refine Same.bind ready opens
    fun frame frame' u v _ _ pair ready ⟨pages, ⟨_, opened⟩, _, opened'⟩ => ?_
  have listed : u.catalog.file record.page.table = .ok file := by
    rw [pair.first.builds.catalog, listed]
  exact Same.bind ready (ready.freeRecord own listed opened opened' pages record)
    fun _ _ u v _ _ _ ready _ => ready.same_pure trivial

/-- Whatever becomes of a row for which a page is appended, the page is there. -/
theorem extant_storeInFresh (grounded : s.Grounded)
    (listed : s.catalog.file file.table = .ok file) (txn : TxnId) (row : Row) :
    (Op.final (storeInFresh file txn row s)).Extant ⟨file.table, file.pageCount s.disk⟩ := by
  obtain ⟨locks, disk, appending, same⟩ := grounded.appendPage_eq listed txn
  have here : Extant { s with locks := locks, disk := disk }
      ⟨file.table, file.pageCount s.disk⟩ :=
    Stores.extant ⟨file, listed, appending.writes.read_self⟩ grounded.sound
  have appends : (appendPage file txn).Leads s
      (fun _ after => after.Extant ⟨file.table, file.pageCount s.disk⟩)
      (fun after => after.Extant ⟨file.table, file.pageCount s.disk⟩) :=
    ((fetch_builds (grounded.builds appending.builds) txn _ .exclusive).mono
      (fun _ _ builds => builds.extant here) fun _ builds => builds.extant here).congr same
  refine (appends.bind fun frame fetched here => ?_).final
  refine ((storeRow_builds file txn frame row fetched).mono
    (fun _ _ builds => builds.extant here) fun _ builds => builds.extant here).bind
    fun stored after here => ?_
  cases stored <;> exact here

/-- Storing a row in an appended page of an own table does the same on stores that agree there, if
the store that one of them leads to is known to have the page. -/
theorem Ready.storeInFresh (ready : Ready mine txn space s t) (own : mine file.table)
    (listed : s.catalog.file file.table = .ok file) (row : Row)
    (within : Within space (Op.final (storeInFresh file txn row s))) :
    Same mine txn space (storeInFresh file txn row) (storeInFresh file txn row) s t
      fun _ _ _ _ => True := by
  have listed' : t.catalog.file file.table = .ok file := by rw [ready.agree.catalog, listed]
  have new := within _ (extant_storeInFresh ready.first.grounded listed txn row)
  have appends := (ready.appendPage own listed new).and_leads
    (appendPage_opens ready.first.coherent listed txn)
    (appendPage_opens ready.second.coherent listed' txn)
  refine Same.bind ready appends fun frame frame' u v _ _ pair ready
    ⟨pages, ⟨page, here, _, opened⟩, page', _, _, opened'⟩ => ?_
  have same : page' = page := opened'.id.symm.trans ((congrArg Page.id pages).trans opened.id)
  subst same
  have listed : u.catalog.file page'.table = .ok file := by
    rw [pair.first.builds.catalog, here, listed]
  refine Same.bind ready (ready.storeRow (here ▸ own) listed opened opened' pages row)
    fun stored stored' u v _ _ _ ready same => ?_
  rw [same]
  cases stored with
  | none =>
    rw [pages]
    exact ready.same_fail _
  | some record => exact ready.same_pure trivial

end PageStore.Store
