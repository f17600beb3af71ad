import PageStore.Proofs.Journal.Gains
import PageStore.Proofs.Schedule.Versions
import PageStore.Proofs.Store.Ground

/-!
# What flushing leads to, in any order

The pages with a transaction's writes are flushed in the order in which the cache gives them, and
nothing may depend on that order.  So what flushes lead to is said without it (`Settles`): the log
gains one entry for each page that was flushed, and these are secured; each byte of a table's file is
that of the flushed page that it belongs to, or what it was; and these pages are cached and clean.

A flush that fails does so at a call of the log, before it has written its page.  What the pages
before it have brought about stays (`flushEach_settles`): only the log may have changed once more, by
calls that leave secured what was (`Logs`).  With a log that is sure no flush fails
(`flushPages_sure`).
-/

namespace PageStore.Store

open Journal (Gains Secures)

variable {s after later : Store} {txn : TxnId} {page place : PageId} {frame : Frame}
  {pages more : List PageId} {entry : Entry} {entries : List Entry}

/-! ## Flushed pages -/

/-- The entries that the log gains when a page is flushed. -/
def tale (s : Store) (page : PageId) : List Entry :=
  match s.cached? page with
  | none => []
  | some cached =>
    cached.dirtier.toList.map fun txn => ⟨txn, cached.id, cached.before, cached.bytes⟩

/-- A store after some of its dirty pages were flushed. -/
structure Settles (pages : List PageId) (s after : Store) : Prop where
  persists : Persists pages s after
  overdue : after.overdue = s.overdue
  capacity : after.capacity = s.capacity
  told : ∃ more, s.journal.Gains more s.disk after.journal after.disk ∧
    (more ≠ [] → s.journal.Secures more s.disk after.journal after.disk) ∧
    ∀ page, entriesAbout page more = if page ∈ pages then s.tale page else []
  secured : ∀ {entries journal disk}, Secures entries journal disk s.journal s.disk →
    Secures entries journal disk after.journal after.disk
  sizes : ∀ table file, s.catalog.file table = .ok file →
    (after.disk.read file.path).length = (s.disk.read file.path).length
  bytes : ∀ table file, s.catalog.file table = .ok file → ∀ i,
    (after.disk.read file.path)[i]? =
      if (⟨file.table, i / file.pageSize⟩ : PageId) ∈ pages then
        (s.cached? ⟨file.table, i / file.pageSize⟩).bind fun cached =>
          cached.bytes[i % file.pageSize]?
      else (s.disk.read file.path)[i]?

theorem Settles.refl (s : Store) : Settles [] s s where
  persists := ⟨rfl, rfl, rfl, fun _ => by simp, nofun, fun _ _ _ => Iff.rfl⟩
  overdue := rfl
  capacity := rfl
  told := ⟨[], Journal.gains_of_disk _ fun _ _ => rfl, fun some => absurd rfl some, fun _ => rfl⟩
  secured := id
  sizes _ _ _ := rfl
  bytes _ _ _ _ := (if_neg List.not_mem_nil).symm

theorem Settles.cached?_eq (settles : Settles pages s after) (page : PageId) :
    after.cached? page =
      (s.cached? page).map fun cached => if page ∈ pages then cached.persisted else cached := by
  unfold cached?
  rw [settles.persists.cached, Option.map_map, Option.map_map]
  congr 1
  funext frame
  simp only [Function.comp]
  split <;> rfl

theorem Settles.cached?_other (settles : Settles pages s after) (absent : page ∉ pages) :
    after.cached? page = s.cached? page := by
  simp only [settles.cached?_eq, if_neg absent, Option.map_id']

/-- Flushing one page after others. -/
theorem Settles.trans (first : Settles pages s after) (second : Settles more after later)
    (apart : ∀ page ∈ more, page ∉ pages) : Settles (pages ++ more) s later where
  persists := first.persists.trans second.persists
  overdue := second.overdue.trans first.overdue
  capacity := second.capacity.trans first.capacity
  told := by
    obtain ⟨entries, gains, secured, told⟩ := first.told
    obtain ⟨further, goesOn, secured', told'⟩ := second.told
    refine ⟨entries ++ further, gains.trans goesOn, fun some => ?_, fun page => ?_⟩
    · cases further with
      | nil =>
        rw [List.append_nil] at some ⊢
        exact second.secured (secured some)
      | cons entry further => exact gains.secures (secured' (List.cons_ne_nil entry further))
    · rw [entriesAbout_append, told, told']
      simp only [List.mem_append]
      by_cases late : page ∈ more
      · have absent := apart page late
        have same : after.tale page = s.tale page := by
          unfold tale
          rw [first.cached?_other absent]
        rw [if_neg absent, if_pos late, if_pos (.inr late), same, List.nil_append]
      · simp only [late, or_false, if_false, List.append_nil]
  secured secures := second.secured (first.secured secures)
  sizes table file listed :=
    (second.sizes table file (by rw [first.persists.catalog, listed])).trans
      (first.sizes table file listed)
  bytes table file listed i := by
    rw [second.bytes table file (by rw [first.persists.catalog, listed]),
      first.bytes table file listed]
    simp only [List.mem_append]
    by_cases late : (⟨file.table, i / file.pageSize⟩ : PageId) ∈ more
    · rw [if_pos late, if_pos (.inr late), first.cached?_other (apart _ late)]
    · simp only [late, or_false, if_false]

/-- Writing a page that is there changes the bytes of that page, and no file's length. -/
theorem WritesPage.file_eq {bytes : Bytes} (written : WritesPage page bytes s after)
    (sound : s.catalog.Sound) (extant : s.Extant page) {table : TableId} {file : HeapFile}
    (listed : s.catalog.file table = .ok file) :
    (after.disk.read file.path).length = (s.disk.read file.path).length ∧
      ∀ i, (after.disk.read file.path)[i]? =
        if (⟨file.table, i / file.pageSize⟩ : PageId) = page then bytes[i % file.pageSize]?
        else (s.disk.read file.path)[i]? := by
  obtain ⟨own, known, inside⟩ := extant
  rcases written with @⟨_, disk, known', writes⟩
  rw [known] at known'
  cases known'
  obtain ⟨here, fileSound⟩ := sound _ _ listed
  obtain ⟨there, ownSound⟩ := sound _ _ known
  subst here
  rcases eq_or_ne file.table page.table with same | apart
  · rw [same, known] at listed
    cases listed
    have reach := (HeapFile.lt_pageCount_iff ownSound.pageSize_pos page.number).1 inside
    refine ⟨?_, fun i => ?_⟩
    · refine writes.length_eq.trans (Nat.max_eq_left ?_)
      exact reach
    · refine (writes.getElem?_eq ownSound.pageSize_pos inside i).trans ?_
      simp only [eq_comm]
  · have other := writes.bytes_other (sound.path_ne (there.symm ▸ known) listed (there.symm ▸ apart))
    refine ⟨congrArg List.length other, fun i => ?_⟩
    rw [if_neg fun here => apart (congrArg PageId.table here)]
    exact congrArg (·[i]?) other

/-- A table's file is not the log's, so writing a page leaves the log as it was. -/
theorem WritesPage.log_eq {bytes : Bytes} (written : WritesPage page bytes s after)
    (coherent : s.Coherent) :
    after.journal = s.journal ∧
      ∀ path, s.journal.path? = some path → after.disk.read path = s.disk.read path := by
  obtain ⟨known, writes⟩ := written
  exact ⟨rfl, fun path log =>
    writes.bytes_other fun here => coherent.apart _ _ known (here ▸ log)⟩

theorem entriesAbout_tale (cached : s.cache.get? page = some frame) (id : frame.page.id = page)
    (dirty : frame.page.dirtier = some txn) (place : PageId) :
    entriesAbout place [⟨txn, frame.page.id, frame.page.before, frame.page.bytes⟩] =
      if place ∈ [page] then s.tale place else [] := by
  simp only [entriesAbout, List.mem_singleton]
  by_cases here : place = page
  · simp [tale, cached?, here, cached, dirty, id]
  · simp [here, id, Ne.symm here]

/-! ## Calls of the log -/

/-- A store after calls of its log, which leave secured what was. -/
structure Logs (s after : Store) : Prop extends Journals s after where
  secured : ∀ {entries journal disk}, Secures entries journal disk s.journal s.disk →
    Secures entries journal disk after.journal after.disk

theorem Logs.trans (first : Logs s after) (second : Logs after later) : Logs s later :=
  ⟨first.toJournals.trans second.toJournals, fun secures => second.secured (first.secured secures)⟩

/-- Writing an entry for two images of a page fails only if the log is not sure. -/
theorem logWrite_gains {table : TableId} {file : HeapFile} (listed : s.catalog.file table = .ok file)
    (before : entry.before.length = file.pageSize) (image : entry.after.length = file.pageSize) :
    (logWrite entry).Leads s
      (fun _ after => Logs s after ∧ s.journal.Gains [entry] s.disk after.journal after.disk)
      (fun after => Logs s after ∧ ¬ s.journal.Sure s.catalog) := by
  have keeps := s.journal.write_keeps s.disk entry
  have secured {entries journal disk} (secures : Secures entries journal disk s.journal s.disk) :=
    secures.write entry
  refine (logWrite_ends s entry).mono ?_ ?_
  · rintro _ _ ⟨ok, rfl⟩
    exact ⟨⟨⟨rfl, keeps⟩, secured⟩, Journal.write_gains ok⟩
  · rintro _ ⟨⟨e, fails⟩, rfl⟩
    exact ⟨⟨⟨rfl, keeps⟩, secured⟩, fun sure =>
      nomatch (sure.write_ok listed before image s.disk).symm.trans fails⟩

/-- Forcing the log secures what it gained. -/
theorem logForce_secures {journal : Journal} {disk : Disk}
    (gains : journal.Gains entries disk s.journal s.disk) :
    logForce.Leads s
      (fun _ after => Logs s after ∧ s.journal.Gains [] s.disk after.journal after.disk ∧
        journal.Secures entries disk after.journal after.disk)
      (fun after => Logs s after ∧ ¬ s.journal.Sure s.catalog) := by
  have keeps := s.journal.force_keeps s.disk
  have secured {entries journal disk} (secures : Secures entries journal disk s.journal s.disk) :=
    secures.force
  refine (logForce_ends s).mono ?_ ?_
  · rintro _ _ ⟨ok, rfl⟩
    exact ⟨⟨⟨rfl, keeps⟩, secured⟩, s.journal.force_gains s.disk, gains.force_secures ok⟩
  · rintro _ ⟨⟨e, fails⟩, rfl⟩
    exact ⟨⟨⟨rfl, keeps⟩, secured⟩, fun sure => nomatch (sure.force_ok s.disk).symm.trans fails⟩

/-! ## Flushing one page -/

/-- Once the entry for a page was written and forced, writing the page settles it. -/
theorem Logs.settles {forced stored : Store} (logs : Logs s forced) (coherent : s.Coherent)
    (cached : s.cache.get? page = some frame) (dirty : frame.page.dirtier = some txn)
    (gains : s.journal.Gains [⟨txn, frame.page.id, frame.page.before, frame.page.bytes⟩] s.disk
      forced.journal forced.disk)
    (secures : s.journal.Secures [⟨txn, frame.page.id, frame.page.before, frame.page.bytes⟩] s.disk
      forced.journal forced.disk)
    (puts : WritesPage page frame.page.bytes forced stored) :
    Settles [page] s (stored.setFrame frame.persisted) := by
  have faithful := coherent.faithful page frame cached
  have catalog : forced.catalog = s.catalog := by rw [logs.eq]
  have cached' : forced.cache.get? page = some frame := by rw [logs.cache_eq, cached]
  have coherent' := coherent.journals logs.toJournals
  have files {table : TableId} {file : HeapFile} (known : s.catalog.file table = .ok file) :
      forced.disk.read file.path = s.disk.read file.path :=
    logs.keeps.others file.path (coherent.apart table file known)
  have extant : forced.Extant page :=
    ((coherent'.faithful page frame cached').before).extant coherent'.catalog
  have bytes {table : TableId} {file : HeapFile} (known : s.catalog.file table = .ok file) :=
    puts.file_eq coherent'.catalog extant (catalog ▸ known)
  have persists := (logs.toJournals.persists coherent).trans (puts.persists coherent' cached')
  have same := setFrame_eq stored frame.persisted
  obtain ⟨journal, own⟩ := puts.log_eq coherent'
  have journal : (stored.setFrame frame.persisted).journal = forced.journal := by rw [same, journal]
  have disk : (stored.setFrame frame.persisted).disk = stored.disk := by rw [same]
  refine ⟨persists, ?_, ?_, ⟨_, ?_, fun _ => ?_, entriesAbout_tale cached faithful.id dirty⟩,
    fun before => ?_, fun table file known => ?_, fun table file known i => ?_⟩
  · rw [same]
    cases puts
    rw [logs.eq]
  · rw [same]
    cases puts
    rw [logs.eq]
  · rw [journal, disk]
    exact gains.trans (Journal.gains_of_disk _ own)
  · rw [journal, disk]
    exact secures.congr own
  · rw [journal, disk]
    exact (logs.secured before).congr own
  · rw [disk, ← files known]
    exact (bytes known).1
  · rw [disk, ← files known]
    refine ((bytes known).2 i).trans ?_
    simp only [List.mem_singleton]
    split
    · next here => rw [here, cached?, cached, Option.map_some, Option.bind_some]
    · rfl

/-- Flushing a page with a transaction's writes settles it, or fails at the log. -/
theorem flushPage_settles (coherent : s.Coherent) (cached : s.cache.get? page = some frame)
    (dirty : frame.page.dirtier = some txn) :
    (flushPage page).Leads s (fun _ => Settles [page] s)
      (fun after => Logs s after ∧ ¬ s.journal.Sure s.catalog) := by
  obtain ⟨file, listed, read⟩ := (coherent.faithful page frame cached).before
  have before : frame.page.before.length = file.pageSize := (HeapFile.read_shape read).2
  have image := (coherent.faithful page frame cached).length.trans before
  refine Op.Leads.congr ?_ (flushPage_of_dirty cached dirty)
  refine (logWrite_gains listed before image).bind fun _ written ⟨logs, gains⟩ => ?_
  have catalog : written.catalog = s.catalog := by rw [logs.eq]
  refine ((logForce_secures gains).mono (fun _ _ => id) fun after ⟨more, unsure⟩ =>
    ⟨logs.trans more, fun sure => unsure (catalog ▸ sure.gains gains)⟩).bind ?_
  rintro _ forced ⟨more, nothing, secures⟩
  have logs := logs.trans more
  have cached' : forced.cache.get? page = some frame := by rw [logs.cache_eq, cached]
  refine (writeStored_leads (coherent.journals logs.toJournals) cached').bind ?_
  intro _ stored puts
  exact logs.settles coherent cached dirty (gains.trans nothing) secures puts

/-! ## Flushing several pages -/

/-- A store after a flush that failed: some pages are settled, and after that the log failed. -/
def Falters (pages : List PageId) (s after : Store) : Prop :=
  ∃ done ⊆ pages, ∃ settled, Settles done s settled ∧ Logs settled after ∧
    ¬ settled.journal.Sure settled.catalog

theorem flushEach_settles (coherent : s.Coherent) (distinct : pages.Nodup)
    (dirty : ∀ page ∈ pages, ∃ frame, s.cache.get? page = some frame ∧
      frame.page.dirtier = some txn) :
    (pages.forM flushPage).Leads s (fun _ => Settles pages s) (Falters pages s) := by
  induction pages generalizing s with
  | nil => exact .refl s
  | cons page pages ih =>
    obtain ⟨absent, distinct⟩ := List.nodup_cons.1 distinct
    obtain ⟨frame, cached, writes⟩ := dirty page List.mem_cons_self
    have apart {done : List PageId} (among : done ⊆ pages) : ∀ place ∈ done, place ∉ [page] :=
      fun place mem same => absent (List.mem_singleton.1 same ▸ among mem)
    refine ((flushPage_settles coherent cached writes).mono (fun _ _ => id)
      fun after ⟨logs, unsure⟩ => ⟨[], List.nil_subset _, s, .refl s, logs, unsure⟩).bind ?_
    intro _ flushed first
    have dirty' : ∀ place ∈ pages, ∃ frame, flushed.cache.get? place = some frame ∧
        frame.page.dirtier = some txn := by
      intro place mem
      obtain ⟨frame, cached, writes⟩ := dirty place (List.mem_cons_of_mem page mem)
      refine ⟨frame, ?_, writes⟩
      rw [first.persists.cached, cached, Option.map_some,
        if_neg (apart (List.Subset.refl pages) place mem)]
    refine (ih (coherent.persists first.persists) distinct dirty').mono
      (fun _ after rest => first.trans rest (apart (List.Subset.refl pages))) ?_
    rintro after ⟨done, among, settled, rest, logs⟩
    exact ⟨page :: done, List.cons_subset_cons page among, settled,
      first.trans rest (apart among), logs⟩

/-- Flushing the pages that hold a transaction's writes. -/
theorem flushPages_settles (coherent : s.Coherent) (txn : TxnId) :
    (flushPages txn).Leads s (fun _ => Settles (s.pagesDirtiedBy txn) s)
      (Falters (s.pagesDirtiedBy txn) s) := by
  have distinct : s.cachedPages.Nodup :=
    (s.arrangement.perm s.cache.keys).nodup_iff.2 s.cache.nodup_keys
  have flushes := flushEach_settles coherent (List.Pairwise.filter _ distinct) fun page mem =>
    (s.mem_pagesDirtiedBy txn page).1 mem
  exact flushes

/-- They can be flushed if the log is sure. -/
theorem flushPages_sure (coherent : s.Coherent) (sure : s.journal.Sure s.catalog) (txn : TxnId) :
    ∃ after, flushPages txn s = .ok () after ∧ Settles (s.pagesDirtiedBy txn) s after := by
  have settles : (flushPages txn).Leads s (fun _ => Settles (s.pagesDirtiedBy txn) s)
      (fun _ => False) := by
    refine (flushPages_settles coherent txn).mono (fun _ _ => id) ?_
    rintro after ⟨done, -, settled, settles, -, unsure⟩
    obtain ⟨entries, gains, -⟩ := settles.told
    refine unsure ?_
    rw [settles.persists.catalog]
    exact sure.gains gains
  obtain ⟨_, after, flushes, settled⟩ := settles.exists_ok
  exact ⟨after, flushes, settled⟩

end PageStore.Store
