import PageStore.Proofs.Schedule.Held
import PageStore.Proofs.Schedule.Undisturbed.Ends
import PageStore.Proofs.Schedule.Undisturbed.Tables

/-!
# Unrelated transactions do not affect each other

Two transactions that touched different tables, and go on with their own, can go on in either order:
each gets the same answer, and the tables, the cached pages, the holders of locks and the entries of
each page in the log come out the same (`System.unrelated_commute`).

A deed of one leaves the other undisturbed (`Works.unrelated`).  So in either order it meets a store
that agrees with the other order's in its own tables, does the same there (`Ready.perform`), and
leaves the tables of the other alone.
-/

namespace PageStore

/-- What a transaction does in one go. -/
inductive Deed where
  | insert (table : TableId) (row : Row)
  | delete (row : Row)
  | scan (table : TableId) (mode : LockMode)
  | commit
  | abort
deriving DecidableEq, Repr, Inhabited

namespace Deed

/-- Does it.  A scan gives the rows of its table, and the other deeds give none. -/
def perform (txn : TxnId) : Deed → Op (List Row)
  | insert table row => do
    Store.insert txn table row
    return []
  | delete row => do
    Store.delete txn row
    return []
  | scan table mode => Store.scanAll txn table mode
  | commit => do
    Store.commit txn
    return []
  | abort => do
    modify (Store.abort txn)
    return []

/-- Whether the tables that a deed names are among some. -/
def On (mine : TableId → Prop) : Deed → Prop
  | insert table _ => mine table
  | delete row => ∀ record, row.record = some record → mine record.page.table
  | scan table _ => mine table
  | commit | abort => True

theorem On.mono {mine more : TableId → Prop} {deed : Deed} (own : deed.On mine)
    (among : ∀ table, mine table → more table) : deed.On more := by
  cases deed with
  | insert table row => exact among table own
  | delete row => exact fun record held => among _ (own record held)
  | scan table mode => exact among table own
  | commit => trivial
  | abort => trivial

end Deed

namespace Store

variable {mine theirs : TableId → Prop} {txn other : TxnId} {space : PageId → Prop}
  {s t after after' : Store} {page : PageId} {deed : Deed} {pages : List PageId}

/-! ## Deeds on stores that agree -/

theorem commit_follows (coherent : s.Coherent) (txn : TxnId) :
    (commit txn).Leads s (fun _ => Follows s) (Follows s) := by
  refine ((commit_builds txn s).and (commit_leads coherent txn)).mono ?_ ?_
  · rintro _ _ ⟨builds, flushed, persists, rfl⟩
    exact ⟨builds, (coherent.persists persists).of_kept rfl rfl rfl fun _ _ => id⟩
  · rintro _ ⟨builds, _, _, flushed, persists, rfl⟩
    exact ⟨builds, (coherent.persists persists).abort txn⟩

theorem perform_follows (grounded : s.Grounded) (coherent : s.Coherent) (deed : Deed)
    (txn : TxnId) : Follows s (Op.final (deed.perform txn s)) := by
  have quiet {op : Op Unit} (leads : op.Leads s (fun _ => Follows s) (Follows s)) :
      (op >>= fun _ => (pure [] : Op (List Row))).Leads s (fun _ => Follows s) (Follows s) :=
    leads.bind fun _ _ follows => Op.leads_pure _ follows
  refine Op.Leads.final ?_
  cases deed with
  | insert table row => exact quiet (insert_follows grounded coherent txn table row)
  | delete row => exact quiet (delete_follows grounded coherent txn row)
  | scan table mode => exact scanAll_follows grounded coherent txn table mode
  | commit => exact quiet (commit_follows coherent txn)
  | abort => exact ⟨builds_abort s txn, coherent.abort txn⟩

theorem Ready.quiet (ready : Ready mine txn space s t) {op : Op Unit}
    (same : Same mine txn space op op s t fun _ _ _ _ => True) :
    Same mine txn space (op >>= fun _ => pure ([] : List Row))
      (op >>= fun _ => pure ([] : List Row)) s t fun rows rows' _ _ => rows' = rows :=
  Same.bind ready same fun _ _ _ _ _ _ _ ready _ => ready.same_pure rfl

/-- A deed on own tables does the same on stores that agree there. -/
theorem Ready.perform (ready : Ready mine txn space s t) (own : deed.On mine)
    (within : Within space (Op.final (deed.perform txn s))) :
    Same mine txn space (deed.perform txn) (deed.perform txn) s t
      fun rows rows' _ _ => rows' = rows := by
  cases deed with
  | insert table row =>
    refine ready.quiet (ready.insert own row ?_)
    have inserts : Deed.perform txn (.insert table row) =
        Store.insert txn table row >>= fun _ => pure ([] : List Row) := rfl
    cases ends : Store.insert txn table row s with
    | ok _ after => rwa [inserts, Op.bind_ok ends] at within
    | error stop after => rwa [inserts, Op.bind_error ends] at within
  | delete row => exact ready.quiet (ready.delete row own)
  | scan table mode => exact ready.scanAll own mode
  | commit => exact ready.quiet ready.commit
  | abort =>
    obtain ⟨pair, within, within'⟩ := ready.abort
    exact same_of_ok rfl rfl pair within within' rfl

/-! ## Deeds of others -/

/-- Who works on tables of its own leaves another undisturbed. -/
theorem Works.unrelated (works : Works mine txn s after) (touched : s.Touched mine txn)
    (undisturbed : Undisturbed theirs other space s) (apart : ∀ table, theirs table → ¬ mine table)
    (ne : other ≠ txn) (within : after.Within space) :
    Undisturbed theirs other space after where
  coherent := works.coherent
  grounded := undisturbed.grounded.builds works.builds
  locks := works.locks
  sure := works.sure
  touched :=
    { held page held := undisturbed.touched.held page (works.others other page ne ▸ held)
      dirtied page cached here dirty := undisturbed.touched.dirtied page cached
        (works.writers other page cached ne here dirty) dirty }
  calm page third own distinct held := by
    have foreign := apart _ own
    rcases eq_or_ne third txn with rfl | unlike
    · rw [works.elsewhere.mode? foreign] at held
      exact absurd (touched.held page held) foreign
    · rw [works.others third page unlike] at held
      exact works.waits third unlike (undisturbed.calm page third own distinct held)
  within := within
  room pages distinct known := by
    rw [works.capacity]
    exact undisturbed.room pages distinct known

/-! ## Either order -/

/-- Two stores that came from one are the same but for what no transaction sees: their tables, the
cached pages, the holders of locks, and what each page has in the log since. -/
structure Alike (s after after' : Store) : Prop where
  agree : Agree (fun _ => True) after after'
  told : ∃ more more', s.journal.Gains more s.disk after.journal after.disk ∧
    s.journal.Gains more' s.disk after'.journal after'.disk ∧
    ∀ page, entriesAbout page more' = entriesAbout page more

theorem Agree.everywhere (own : Agree mine s t) (foreign : Agree (fun table => ¬ mine table) s t) :
    Agree (fun _ => True) s t where
  catalog := own.catalog
  overdue := own.overdue
  files table file _ listed := by
    by_cases here : mine table
    · exact own.files table file here listed
    · exact foreign.files table file here listed
  cached page _ := by
    by_cases here : mine page.table
    · exact own.cached page here
    · exact foreign.cached page here
  holders page _ := by
    by_cases here : mine page.table
    · exact own.holders page here
    · exact foreign.holders page here

theorem entriesAbout_eq_nil {entries : List Entry} (other : ∀ entry ∈ entries, entry.page ≠ page) :
    entriesAbout page entries = [] :=
  List.filter_eq_nil_iff.2 fun entry mem about => other entry mem (of_decide_eq_true about)

/-- Entries for some tables and for others, made in either order. -/
theorem Enters.swap {first first' second second' : Store}
    (enters : Enters mine s second first second')
    (enters' : Enters (fun table => ¬ mine table) first s first' second) :
    ∃ more more', s.journal.Gains more s.disk first'.journal first'.disk ∧
      s.journal.Gains more' s.disk second'.journal second'.disk ∧
      ∀ page, entriesAbout page more' = entriesAbout page more := by
  obtain ⟨own, own', gains, gains', same, mem⟩ := enters
  obtain ⟨foreign, foreign', goesOn, begins, same', mem'⟩ := enters'
  refine ⟨own ++ foreign, foreign' ++ own', gains.trans goesOn, begins.trans gains', fun page => ?_⟩
  rw [entriesAbout_append, entriesAbout_append, same, same']
  by_cases here : mine page.table
  · have none : entriesAbout page foreign = [] :=
      entriesAbout_eq_nil fun entry held about => mem' entry held (about ▸ here)
    rw [none, List.nil_append, List.append_nil]
  · have none : entriesAbout page own = [] :=
      entriesAbout_eq_nil fun entry held about => here (about ▸ mem entry held)
    rw [none, List.nil_append, List.append_nil]

/-- Deeds of two transactions on tables of their own can be done in either order. -/
theorem perform_commute {deed' : Deed} (undisturbed : Undisturbed mine txn space s)
    (undisturbed' : Undisturbed (fun table => ¬ mine table) other space s) (ne : txn ≠ other)
    (own : deed.On mine) (own' : deed'.On fun table => ¬ mine table)
    (within : Within space
      (Op.final (deed'.perform other (Op.final (deed.perform txn s))))) :
    let first := deed.perform txn
    let second := deed'.perform other
    Op.answer (first (Op.final (second s))) = Op.answer (first s) ∧
      Op.answer (second (Op.final (first s))) = Op.answer (second s) ∧
      Alike s (Op.final (second (Op.final (first s)))) (Op.final (first (Op.final (second s)))) := by
  intro first second
  have begins := perform_follows undisturbed.grounded undisturbed.coherent deed txn
  have goesOn := perform_follows (undisturbed.grounded.builds begins.builds) begins.coherent deed'
    other
  have among : Within space (Op.final (first s)) :=
    fun page extant => within page (goesOn.builds.extant extant)
  -- what the first transaction does before the second leaves the second undisturbed
  obtain ⟨-, alone⟩ := (Ready.perform ⟨undisturbed, undisturbed, .refl mine s⟩ own among).ends
  have works := alone.first
  have ready' : Ready (fun table => ¬ mine table) other space (Op.final (first s)) s :=
    ⟨works.unrelated undisturbed.touched undisturbed' (fun _ => id) ne.symm among, undisturbed',
      works.elsewhere.symm⟩
  obtain ⟨answers', pair'⟩ := (ready'.perform own' within).ends
  -- and so does what the second does before the first
  have elsewhere : Agree mine s (Op.final (second s)) :=
    pair'.second.elsewhere.mono fun _ => not_not_intro
  have among' : Within space (Op.final (second s)) := by
    intro page extant
    by_cases here : mine page.table
    · exact undisturbed.within page ((elsewhere.extant here).1 extant)
    · exact within page ((pair'.agree.extant here).1 extant)
  have ready : Ready mine txn space s (Op.final (second s)) :=
    ⟨undisturbed, pair'.second.unrelated undisturbed'.touched undisturbed
      (fun _ => not_not_intro) ne among', elsewhere⟩
  obtain ⟨answers, pair⟩ := (ready.perform own among).ends
  have ours : Agree mine (Op.final (second (Op.final (first s))))
      (Op.final (first (Op.final (second s)))) :=
    (pair'.first.elsewhere.mono fun _ => not_not_intro).symm.trans pair.agree
  exact ⟨answers, answers'.symm,
    ours.everywhere (pair'.agree.trans pair.second.elsewhere), pair.enters.swap pair'.enters⟩

/-! ## The pages of all tables -/

/-- The pages of all tables. -/
def allPages (s : Store) : List PageId :=
  s.catalog.entries.flatMap fun (table, entry) =>
    (List.range (entry.file.pageCount s.disk)).map fun number => ⟨table, number⟩

theorem Extant.mem_allPages (extant : s.Extant page) : page ∈ s.allPages := by
  obtain ⟨file, listed, inside⟩ := extant
  obtain ⟨entry, look, rfl⟩ := Catalog.file_eq_ok.1 listed
  refine List.mem_flatMap.2 ⟨(page.table, entry), Dictionary.mem_entries_iff.2 look, ?_⟩
  exact List.mem_map.2 ⟨page.number, List.mem_range.2 inside, rfl⟩

end Store

open Store

/-! ## Locks along a run -/

/-- A lock table in which holders and waits are on record. -/
structure LockTable.Tidy (locks : LockTable) : Prop where
  consistent : locks.Consistent
  recorded : locks.Recorded

namespace System

variable {start sys : System} {s after : Store} {action : Action} {report : Report} {txn : TxnId}
  {reports : List Report}

theorem Moves.tidy (moves : Moves s action report after) (tidy : s.locks.Tidy) :
    after.locks.Tidy := by
  have widens {txn : TxnId} {locks later : LockTable} (widens : locks.Widens txn later)
      (tidy : locks.Tidy) : later.Tidy :=
    ⟨widens.consistent tidy.consistent, widens.recorded tidy.recorded⟩
  have readies {txn : TxnId} {readied : Store} (readies : Readies txn s readied) :
      readied.locks.Tidy := by
    cases readies with
    | fetches fetches => exact widens fetches.locks tidy
    | appends before appends rest =>
      cases appends
      exact widens rest.locks (widens before.locks tidy)
  have lets_go {locks : LockTable} (txn : TxnId) (tidy : locks.Tidy) :
      (locks.releaseAll txn).Tidy :=
    ⟨tidy.consistent.releaseAll txn, tidy.recorded.releaseAll txn⟩
  cases moves with
  | readies ready => exact readies ready
  | alters _ alters =>
    obtain ⟨readied, ready, rewrites⟩ := alters
    have tidy := readies ready
    cases rewrites
    exact tidy
  | commits persists => exact lets_go _ (persists.locks ▸ tidy)
  | fails persists =>
    rw [abort_eq]
    exact lets_go _ (persists.locks ▸ tidy)
  | aborts =>
    rw [abort_eq]
    exact lets_go _ tidy
  | flushes _ persists => exact persists.locks ▸ tidy
  | discards =>
    rw [dropPage_eq]
    exact tidy
  | releases => exact ⟨tidy.consistent.release _ _, tidy.recorded.release _ _⟩

theorem Run.tidy {allowed : System → Action → Prop} (run : Run allowed start reports sys)
    (fresh : start.Fresh) : sys.store.locks.Tidy := by
  induction run with
  | nil =>
    rw [fresh.locks]
    exact ⟨LockTable.consistent_empty, fun _ _ => rfl⟩
  | act run action _ ih => exact (act_moves (run.steady fresh) action).tidy ih

theorem Run.rooted {allowed : System → Action → Prop} (run : Run allowed start reports sys)
    (fresh : start.Fresh) : sys.Rooted := by
  induction run with
  | nil => exact fresh.rooted
  | act _ action _ ih => exact ih.act action

/-- A transaction is undisturbed in tables that it alone touched, while nobody waits. -/
theorem Run.undisturbed {allowed : System → Action → Prop} {mine : TableId → Prop}
    {space : PageId → Prop} (run : Run allowed start reports sys) (fresh : start.Fresh)
    (idle : ∀ txn, sys.store.locks.isWaiting txn = false)
    (touched : sys.store.Touched mine txn) (sure : sys.store.journal.Sure sys.store.catalog)
    (within : sys.store.Within space)
    (room : ∀ pages : List PageId, pages.Nodup → (∀ page ∈ pages, space page) →
      pages.length ≤ sys.store.capacity) :
    Undisturbed mine txn space sys.store where
  coherent := (run.steady fresh).coherent
  grounded := (run.rooted fresh).grounded
  locks := (run.tidy fresh).consistent
  sure := sure
  touched := touched
  calm _ other _ _ _ := (run.tidy fresh).recorded other (idle other)
  within := within
  room := room

/-! ## Unrelated transactions -/

/-- Two transactions touched no table in common: the pages that they hold, and those with their
writes, are in different tables.  Nobody waits, no call of the log fails, and all pages of the tables
fit the cache, those that the two are about to append included.  Then each of the two can insert or
delete a row or scan a table, of its own, or commit or abort, in either order: it gets the same
answer, and the tables, the cached pages, the holders of locks and the entries of each page in the
log come out the same. -/
theorem unrelated_commute {first second : TxnId} {ours theirs : TableId → Prop}
    {deed deed' : Deed} (fresh : start.Fresh) (run : Run (fun _ _ => True) start reports sys)
    (idle : ∀ txn, sys.store.locks.isWaiting txn = false) (ne : first ≠ second)
    (apart : ∀ table, ours table → ¬ theirs table) (touched : sys.store.Touched ours first)
    (touched' : sys.store.Touched theirs second) (own : deed.On ours) (own' : deed'.On theirs)
    (sure : sys.store.journal.Sure sys.store.catalog)
    (room : (Op.final (deed'.perform second
      (Op.final (deed.perform first sys.store)))).allPages.length ≤ sys.store.capacity) :
    let one := deed.perform first
    let other := deed'.perform second
    Op.answer (one (Op.final (other sys.store))) = Op.answer (one sys.store) ∧
      Op.answer (other (Op.final (one sys.store))) = Op.answer (other sys.store) ∧
      Alike sys.store (Op.final (other (Op.final (one sys.store))))
        (Op.final (one (Op.final (other sys.store)))) := by
  intro one other
  have foreign : ∀ table, theirs table → ¬ ours table := fun table theirs ours =>
    apart table ours theirs
  have begins := perform_follows (run.rooted fresh).grounded (run.steady fresh).coherent deed first
  have goesOn := perform_follows ((run.rooted fresh).grounded.builds begins.builds) begins.coherent
    deed' second
  have within : Within (Op.final (other (Op.final (one sys.store)))).Extant sys.store :=
    fun page extant => goesOn.builds.extant (begins.builds.extant extant)
  have fits : ∀ pages : List PageId, pages.Nodup →
      (∀ page ∈ pages, (Op.final (other (Op.final (one sys.store)))).Extant page) →
      pages.length ≤ sys.store.capacity := fun pages distinct extant =>
    Nat.le_trans (List.Nodup.length_le_of_subset distinct fun page mem =>
      (extant page mem).mem_allPages) room
  have undisturbed := run.undisturbed fresh idle touched sure within fits
  have undisturbed' := run.undisturbed fresh idle (touched'.mono foreign) sure within fits
  exact perform_commute undisturbed undisturbed' ne own (own'.mono foreign) fun _ => id

/-- Another file of a table of integers. -/
def otherFile : HeapFile := ⟨TableId.ofPath "u", "u", ⟨[⟨.int, none⟩]⟩, 8⟩

/-- A system over two empty files, with a cache of three pages. -/
def paired : System where
  store :=
    { Store.start (.empty default) 3 (fun _ => false) (.memory .empty) with
      catalog := (Dictionary.empty.put smallFile.table ⟨"t", smallFile⟩).put otherFile.table
        ⟨"u", otherFile⟩ }
  calls := .empty
  nextTxn := 0

theorem paired_fresh : paired.Fresh where
  catalog := (Catalog.sound_empty.add smallFile ⟨rfl, by decide⟩
    (rfl : Catalog.add _ smallFile "t" = .ok _)).add otherFile ⟨rfl, by decide⟩
      (rfl : Catalog.add _ otherFile "u" = .ok _)
  apart _ _ _ := nofun
  cache := rfl
  locks := rfl
  calls := rfl

/-- The statement above for a commit beside an insertion that appends a page. -/
theorem unrelated_commute_beside_append :
    let sys := paired.acts [.begin, .begin, .demand 0 (.insert smallFile.table ⟨[.int 7], none⟩),
      .advance 0, .demand 1 (.insert otherFile.table ⟨[.int 8], none⟩), .advance 1]
    let one := Deed.commit.perform 0
    let other := (Deed.insert otherFile.table ⟨[.int 9], none⟩).perform 1
    sys.store.locks.requests.entries = [] ∧ sys.store.Touched (· = smallFile.table) 0 ∧
      sys.store.Touched (· = otherFile.table) 1 ∧
      (Op.final (other (Op.final (one sys.store)))).allPages.length = sys.store.capacity ∧
      Op.answer (one (Op.final (other sys.store))) = Op.answer (one sys.store) ∧
      Op.answer (other (Op.final (one sys.store))) = Op.answer (other sys.store) ∧
      Alike sys.store (Op.final (other (Op.final (one sys.store))))
        (Op.final (one (Op.final (other sys.store)))) := by
  intro sys one other
  have run : Run (fun _ _ => True) paired _ sys := run_acts paired fun _ _ _ => trivial
  have requests : sys.store.locks.requests.entries = [] := by decide +kernel
  have idle : ∀ txn, sys.store.locks.isWaiting txn = false := fun txn => by
    rw [LockTable.isWaiting, Dictionary.contains, Dictionary.get?, requests]
    rfl
  have touched {txn : TxnId} {file : HeapFile}
      (held : sys.store.locks.heldBy txn = [⟨file.table, 0⟩])
      (dirtied : sys.store.pagesDirtiedBy txn = [⟨file.table, 0⟩]) :
      sys.store.Touched (· = file.table) txn := by
    refine ⟨fun page holds => ?_, fun page cached here dirty => ?_⟩
    · rw [← (run.tidy paired_fresh).consistent.held txn page, held] at holds
      exact congrArg PageId.table (List.mem_singleton.1 holds)
    · have mem := (mem_pagesDirtiedBy_iff_cached? sys.store txn page).2 ⟨cached, here, dirty⟩
      rw [dirtied] at mem
      exact congrArg PageId.table (List.mem_singleton.1 mem)
  have mine : sys.store.Touched (· = smallFile.table) 0 :=
    touched (by decide +kernel) (by decide +kernel)
  have theirs : sys.store.Touched (· = otherFile.table) 1 :=
    touched (by decide +kernel) (by decide +kernel)
  have full : (Op.final (other (Op.final (one sys.store)))).allPages.length = sys.store.capacity := by
    decide +kernel
  have sure : sys.store.journal.Sure sys.store.catalog := by
    have memory : sys.store.journal = .memory .empty := by rfl
    rw [memory]
    exact .memory (fun _ => rfl) fun _ => rfl
  have apart : ∀ table, table = smallFile.table → ¬ table = otherFile.table := by
    rintro _ rfl
    decide +kernel
  exact ⟨requests, mine, theirs, full, unrelated_commute paired_fresh run idle (by decide) apart
    mine theirs trivial rfl sure (Nat.le_of_eq full)⟩

end System

end PageStore
