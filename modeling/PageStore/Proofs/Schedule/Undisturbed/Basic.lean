import PageStore.Proofs.Journal.Gains
import PageStore.Proofs.Query.Scan
import PageStore.Proofs.Schedule.Versions
import PageStore.Proofs.Store.Agree

/-!
# Working on tables of one's own

A transaction is undisturbed in some tables if it touched no others, nobody who holds a page of these
waits, no call of the log fails, and there is room for all their pages (`Undisturbed`).  What it does
then is a matter of these tables alone, and it leaves the others as they are (`Works`).

So it is followed on two stores at once, which agree in the tables (`Ready`).  It does the same on
both (`Same`): they agree again afterwards, and their logs gained the same for each page (`Pair`).
`Same.bind` follows the sequencing of operations.  The base of it all is to fetch a page
(`Ready.fetch`): with room in the cache nothing is evicted, so whether the page is found there or read
from its file it is the same page.
-/

namespace PageStore

namespace Store

variable {mine : TableId → Prop} {txn : TxnId} {space : PageId → Prop}
  {s t u v after after' : Store} {page place : PageId} {frame frame' : Frame} {stored : Page}
  {mode : LockMode} {file : HeapFile} {holders : Holders} {row : Row}

/-! ## Undisturbed transactions -/

/-- Every page of a table is among some. -/
def Within (space : PageId → Prop) (s : Store) : Prop := ∀ page, s.Extant page → space page

/-- The pages that a transaction holds, and those with its writes, are in some tables. -/
structure Touched (mine : TableId → Prop) (txn : TxnId) (s : Store) : Prop where
  held : ∀ page, (s.locks.mode? txn page).isSome → mine page.table
  dirtied : ∀ page cached, s.cached? page = some cached → cached.dirtier = some txn →
    mine page.table

/-- A store in which a transaction has only touched some tables, and nobody who holds a page of
these waits; its log is sure, and there is room for every page of its tables. -/
structure Undisturbed (mine : TableId → Prop) (txn : TxnId) (space : PageId → Prop) (s : Store) :
    Prop where
  coherent : s.Coherent
  grounded : s.Grounded
  locks : s.locks.Consistent
  sure : s.journal.Sure s.catalog
  touched : s.Touched mine txn
  calm : ∀ page other, mine page.table → other ≠ txn → (s.locks.mode? other page).isSome →
    s.locks.waits.get? other = none
  within : s.Within space
  room : ∀ pages : List PageId, pages.Nodup → (∀ page ∈ pages, space page) →
    pages.length ≤ s.capacity

/-- A store after a transaction worked on some tables. -/
structure Works (mine : TableId → Prop) (txn : TxnId) (s after : Store) : Prop where
  elsewhere : Agree (fun table => ¬ mine table) s after
  builds : Builds s after
  coherent : after.Coherent
  locks : after.locks.Consistent
  sure : after.journal.Sure after.catalog
  others : ∀ other page, other ≠ txn → after.locks.mode? other page = s.locks.mode? other page
  waits : ∀ other, other ≠ txn → s.locks.waits.get? other = none →
    after.locks.waits.get? other = none
  writers : ∀ other page cached, other ≠ txn → after.cached? page = some cached →
    cached.dirtier = some other → s.cached? page = some cached
  capacity : after.capacity = s.capacity

theorem Undisturbed.works (undisturbed : Undisturbed mine txn space s) : Works mine txn s s where
  elsewhere := .refl _ s
  builds := .refl s
  coherent := undisturbed.coherent
  locks := undisturbed.locks
  sure := undisturbed.sure
  others _ _ _ := rfl
  waits _ _ := id
  writers _ _ _ _ here _ := here
  capacity := rfl

theorem Works.trans (first : Works mine txn s after) (second : Works mine txn after u) :
    Works mine txn s u where
  elsewhere := first.elsewhere.trans second.elsewhere
  builds := first.builds.trans second.builds
  coherent := second.coherent
  locks := second.locks
  sure := second.sure
  others other page ne := (second.others other page ne).trans (first.others other page ne)
  waits other ne none := second.waits other ne (first.waits other ne none)
  writers other page cached ne here dirty :=
    first.writers other page cached ne (second.writers other page cached ne here dirty) dirty
  capacity := second.capacity.trans first.capacity

theorem Touched.mono {more : TableId → Prop} (touched : s.Touched mine txn)
    (among : ∀ table, mine table → more table) : s.Touched more txn where
  held page held := among _ (touched.held page held)
  dirtied page cached here dirty := among _ (touched.dirtied page cached here dirty)

/-- Nothing is touched where stores agree but what was touched before. -/
theorem Touched.of_agree (touched : s.Touched mine txn)
    (elsewhere : Agree (fun table => ¬ mine table) s after) : after.Touched mine txn where
  held page held := by
    refine Classical.by_contradiction fun foreign => foreign (touched.held page ?_)
    rwa [← elsewhere.mode? foreign]
  dirtied page cached here dirty := by
    refine Classical.by_contradiction fun foreign => foreign (touched.dirtied page cached ?_ dirty)
    rwa [← elsewhere.cached page foreign]

/-- A transaction stays undisturbed while it works, as long as there is room. -/
theorem Works.undisturbed (works : Works mine txn s after)
    (undisturbed : Undisturbed mine txn space s) (within : after.Within space) :
    Undisturbed mine txn space after where
  coherent := works.coherent
  grounded := undisturbed.grounded.builds works.builds
  locks := works.locks
  sure := works.sure
  touched := undisturbed.touched.of_agree works.elsewhere
  calm page other own ne held := by
    rw [works.others other page ne] at held
    exact works.waits other ne (undisturbed.calm page other own ne held)
  within := within
  room pages distinct known := by
    rw [works.capacity]
    exact undisturbed.room pages distinct known

theorem Within.of_same (within : s.Within space) (catalog : after.catalog = s.catalog)
    (disk : after.disk = s.disk) : after.Within space := by
  intro page extant
  refine within page ?_
  unfold Extant at extant ⊢
  rwa [catalog, disk] at extant

/-! ## Two stores side by side -/

/-- Two logs gained entries that tell the same of every page, all of them of pages of some tables. -/
def Enters (mine : TableId → Prop) (s t after after' : Store) : Prop :=
  ∃ more more', s.journal.Gains more s.disk after.journal after.disk ∧
    t.journal.Gains more' t.disk after'.journal after'.disk ∧
    (∀ page, entriesAbout page more' = entriesAbout page more) ∧
    ∀ entry ∈ more, mine entry.page.table

theorem Enters.trans (first : Enters mine s t after after') (second : Enters mine after after' u v) :
    Enters mine s t u v := by
  obtain ⟨more, more', gains, gains', same, own⟩ := first
  obtain ⟨further, further', goesOn, goesOn', same', own'⟩ := second
  refine ⟨more ++ further, more' ++ further', gains.trans goesOn, gains'.trans goesOn', ?_, ?_⟩
  · intro page
    rw [entriesAbout_append, entriesAbout_append, same, same']
  · intro entry mem
    exact (List.mem_append.1 mem).elim (own entry) (own' entry)

/-- Two stores that agree in some tables, after a transaction worked on these in both and did the
same. -/
structure Pair (mine : TableId → Prop) (txn : TxnId) (s t after after' : Store) : Prop where
  first : Works mine txn s after
  second : Works mine txn t after'
  agree : Agree mine after after'
  enters : Enters mine s t after after'

theorem Pair.trans (pair : Pair mine txn s t after after') (rest : Pair mine txn after after' u v) :
    Pair mine txn s t u v :=
  ⟨pair.first.trans rest.first, pair.second.trans rest.second, rest.agree,
    pair.enters.trans rest.enters⟩

/-- Two stores that agree in some tables, in both of which a transaction is undisturbed there. -/
structure Ready (mine : TableId → Prop) (txn : TxnId) (space : PageId → Prop) (s t : Store) :
    Prop where
  first : Undisturbed mine txn space s
  second : Undisturbed mine txn space t
  agree : Agree mine s t

theorem Pair.ready (pair : Pair mine txn s t after after') (ready : Ready mine txn space s t)
    (within : after.Within space) (within' : after'.Within space) :
    Ready mine txn space after after' :=
  ⟨pair.first.undisturbed ready.first within, pair.second.undisturbed ready.second within',
    pair.agree⟩

/-- Nothing was done. -/
theorem Ready.pair (ready : Ready mine txn space s t) : Pair mine txn s t s t where
  first := ready.first.works
  second := ready.second.works
  agree := ready.agree
  enters := ⟨[], [], Journal.gains_of_disk _ fun _ _ => rfl, Journal.gains_of_disk _ fun _ _ => rfl,
    fun _ => rfl, nofun⟩

/-- A transaction works on its tables by changing what is cached of them. -/
theorem Undisturbed.works_of_cache (undisturbed : Undisturbed mine txn space s)
    (same : after = { s with cache := after.cache, shelf := after.shelf }) (builds : Builds s after)
    (coherent : after.Coherent)
    (elsewhere : ∀ page, ¬ mine page.table → after.cached? page = s.cached? page)
    (writers : ∀ other page cached, other ≠ txn → after.cached? page = some cached →
      cached.dirtier = some other → s.cached? page = some cached) : Works mine txn s after where
  elsewhere := ⟨by rw [same], by rw [same], fun _ _ _ _ => by rw [same], elsewhere,
    fun _ _ => by rw [same]⟩
  builds := builds
  coherent := coherent
  locks := by
    rw [same]
    exact undisturbed.locks
  sure := by
    rw [same]
    exact undisturbed.sure
  others _ _ _ := by rw [same]
  waits _ _ none := by
    rw [same]
    exact none
  writers := writers
  capacity := by rw [same]

/-- Who writes to no log adds nothing to it. -/
theorem enters_nothing (journal : after.journal = s.journal) (journal' : after'.journal = t.journal)
    (disk : ∀ path, s.journal.path? = some path → after.disk.read path = s.disk.read path)
    (disk' : ∀ path, t.journal.path? = some path → after'.disk.read path = t.disk.read path) :
    Enters mine s t after after' := by
  refine ⟨[], [], ?_, ?_, fun _ => rfl, nofun⟩
  · rw [journal]
    exact Journal.gains_of_disk _ disk
  · rw [journal']
    exact Journal.gains_of_disk _ disk'

/-- Stores that agreed agree again once what is cached was changed alike. -/
theorem Ready.pair_of_cache (ready : Ready mine txn space s t) (first : Works mine txn s after)
    (second : Works mine txn t after')
    (same : after = { s with cache := after.cache, shelf := after.shelf })
    (same' : after' = { t with cache := after'.cache, shelf := after'.shelf })
    (cached : ∀ page, mine page.table → after'.cached? page = after.cached? page) :
    Pair mine txn s t after after' where
  first := first
  second := second
  agree := by
    refine ⟨?_, ?_, fun table file own listed => ?_, cached, fun page own => ?_⟩
    · rw [same, same']
      exact ready.agree.catalog
    · rw [same, same']
      exact ready.agree.overdue
    · rw [same] at listed
      rw [same, same']
      exact ready.agree.files table file own listed
    · rw [same, same']
      exact ready.agree.holders page own
  enters := enters_nothing (by rw [same]) (by rw [same']) (fun _ _ => by rw [same])
    fun _ _ => by rw [same']

/-- Two operations do the same on two stores: both succeed, with values that are related, or both
stop for the same reason. -/
def Same {α : Type} (mine : TableId → Prop) (txn : TxnId) (space : PageId → Prop) (op op' : Op α)
    (s t : Store) (related : α → α → Store → Store → Prop) : Prop :=
  match op s, op' t with
  | .ok a after, .ok b after' =>
    Pair mine txn s t after after' ∧ after.Within space ∧ after'.Within space ∧
      related a b after after'
  | .error stop after, .error stop' after' => stop' = stop ∧ Pair mine txn s t after after'
  | _, _ => False

section

variable {α β : Type} {op op' : Op α} {rest rest' : α → Op β}
  {related : α → α → Store → Store → Prop} {goal : β → β → Store → Store → Prop}

theorem same_of_ok {a b : α} (ok : op s = .ok a after) (ok' : op' t = .ok b after')
    (pair : Pair mine txn s t after after') (within : after.Within space)
    (within' : after'.Within space) (values : related a b after after') :
    Same mine txn space op op' s t related := by
  unfold Same
  rw [ok, ok']
  exact ⟨pair, within, within', values⟩

theorem same_of_error {stop : Stop} (error : op s = .error stop after)
    (error' : op' t = .error stop after') (pair : Pair mine txn s t after after') :
    Same mine txn space op op' s t related := by
  unfold Same
  rw [error, error']
  exact ⟨rfl, pair⟩

/-- Operations that touch nothing and answer alike do the same. -/
theorem Ready.same_of_answer (ready : Ready mine txn space s t) (answer : Except Error α)
    (ends : op s = Op.ofExcept answer s) (ends' : op' t = Op.ofExcept answer t) :
    Same mine txn space op op' s t fun a b after after' =>
      answer = .ok a ∧ b = a ∧ after = s ∧ after' = t := by
  cases answer with
  | ok a =>
    exact same_of_ok ends ends' ready.pair ready.first.within ready.second.within ⟨rfl, rfl, rfl, rfl⟩
  | error e => exact same_of_error ends ends' ready.pair

theorem Ready.same_pure (ready : Ready mine txn space s t) {a b : α} (values : related a b s t) :
    Same mine txn space (pure a) (pure b) s t related :=
  same_of_ok rfl rfl ready.pair ready.first.within ready.second.within values

theorem Ready.same_fail (ready : Ready mine txn space s t) (e : Error) :
    Same mine txn space (Op.fail e : Op α) (Op.fail e) s t related :=
  same_of_error rfl rfl ready.pair

/-- What is done the same after something else was done the same. -/
theorem Same.behind (pair : Pair mine txn s t u v) {other other' : Op β}
    (same : Same mine txn space other other' u v goal) {whole whole' : Op β}
    (eq : whole s = other u) (eq' : whole' t = other' v) :
    Same mine txn space whole whole' s t goal := by
  unfold Same at same ⊢
  rw [eq, eq']
  split at same
  · exact ⟨pair.trans same.1, same.2⟩
  · exact ⟨same.1, pair.trans same.2⟩
  · exact same.elim

theorem Same.bind (ready : Ready mine txn space s t) (first : Same mine txn space op op' s t related)
    (then' : ∀ a b u v, op s = .ok a u → op' t = .ok b v → Pair mine txn s t u v →
      Ready mine txn space u v → related a b u v → Same mine txn space (rest a) (rest' b) u v goal) :
    Same mine txn space (op >>= rest) (op' >>= rest') s t goal := by
  unfold Same at first
  split at first
  · next a u b v ok ok' =>
    obtain ⟨pair, within, within', values⟩ := first
    have goesOn := then' a b u v ok ok' pair (pair.ready ready within within') values
    exact Same.behind pair goesOn (Op.bind_ok ok) (Op.bind_ok ok')
  · next stop u stop' v error error' =>
    obtain ⟨rfl, pair⟩ := first
    exact same_of_error (Op.bind_error error) (Op.bind_error error') pair
  · exact first.elim

/-- What two operations do that do the same is also what lemmas about each of them say. -/
theorem Same.and_leads {done done' : α → Store → Prop} {stopped stopped' : Store → Prop}
    (same : Same mine txn space op op' s t related) (leads : op.Leads s done stopped)
    (leads' : op'.Leads t done' stopped') :
    Same mine txn space op op' s t fun a b after after' =>
      related a b after after' ∧ done a after ∧ done' b after' := by
  unfold Same at same ⊢
  split at same
  · next ok ok' =>
    exact ⟨same.1, same.2.1, same.2.2.1, same.2.2.2, leads.of_ok ok, leads'.of_ok ok'⟩
  · exact same
  · exact same.elim

/-- Operations that do the same give the same answer. -/
theorem Same.ends (same : Same mine txn space op op' s t fun a b _ _ => b = a) :
    Op.answer (op' t) = Op.answer (op s) ∧
      Pair mine txn s t (Op.final (op s)) (Op.final (op' t)) := by
  unfold Same at same
  split at same
  · next ok ok' =>
    rw [ok, ok', same.2.2.2]
    exact ⟨rfl, same.1⟩
  · next error error' =>
    rw [error, error', same.1]
    exact ⟨rfl, same.2⟩
  · exact same.elim

/-- Operations that do the same as others. -/
theorem Same.congr {other other' : Op α} (same : Same mine txn space other other' s t related)
    (eq : op s = other s) (eq' : op' t = other' t) : Same mine txn space op op' s t related := by
  unfold Same at same ⊢
  rw [eq, eq']
  exact same

end

/-! ## Fetching -/

/-- What a transaction does to a store by fetching a page, which has the given holders then. -/
structure Visits (txn : TxnId) (page : PageId) (holders : Holders) (s after : Store) : Prop
    extends Fetches txn s after where
  builds : Builds s after
  puts : s.locks.Puts txn page holders after.locks
  overdue : after.overdue = s.overdue
  capacity : after.capacity = s.capacity
  cached : ∀ place, place ≠ page → after.cached? place = s.cached? place

theorem visits_of_fetch (grounded : s.Grounded) (ends : Op.final (fetch txn page mode s) = after)
    (puts : s.locks.Puts txn page holders after.locks) (overdue : after.overdue = s.overdue)
    (capacity : after.capacity = s.capacity)
    (cached : ∀ place, place ≠ page → after.cached? place = s.cached? place) :
    Visits txn page holders s after := by
  have fetches : Fetches txn s (Op.final (fetch txn page mode s)) :=
    ((fetch_leads s txn page mode).mono (fun _ _ => And.left) fun _ => id).final
  have builds : Builds s (Op.final (fetch txn page mode s)) :=
    (fetch_builds grounded txn page mode).final
  rw [ends] at fetches builds
  exact ⟨fetches, builds, puts, overdue, capacity, cached⟩

theorem Visits.works (visits : Visits txn page holders s after)
    (undisturbed : Undisturbed mine txn space s) (own : mine page.table) :
    Works mine txn s after where
  elsewhere := by
    have apart {place : PageId} (foreign : ¬ mine place.table) : place ≠ page :=
      fun same => foreign (same ▸ own)
    exact ⟨visits.catalog, visits.overdue, fun _ _ _ _ => by rw [visits.disk],
      fun place foreign => visits.cached place (apart foreign),
      fun place foreign => visits.puts.elsewhere place (apart foreign)⟩
  builds := visits.builds
  coherent := undisturbed.coherent.turnover visits.toTurnover
  locks := visits.locks.consistent undisturbed.locks
  sure := by
    rw [visits.journal, visits.catalog]
    exact undisturbed.sure
  others := visits.locks.others
  waits := visits.puts.waits
  writers other place cached _ here dirty := by
    obtain ⟨frame, held, rfl⟩ := Option.map_eq_some_iff.1 here
    rcases visits.read place frame held with before | stores
    · rw [cached?, before, Option.map_some]
    · rw [stores.dirtier_eq] at dirty
      cases dirty
  capacity := visits.capacity

/-- Visits of one page in two stores, which leave the page cached alike. -/
theorem Ready.pair_of_visits (ready : Ready mine txn space s t) (own : mine page.table)
    (visits : Visits txn page holders s after) (visits' : Visits txn page holders t after')
    (cached : after'.cached? page = after.cached? page) : Pair mine txn s t after after' where
  first := visits.works ready.first own
  second := visits'.works ready.second own
  agree := by
    refine ⟨?_, ?_, fun table file own listed => ?_, fun place own => ?_, fun place own => ?_⟩
    · rw [visits'.catalog, visits.catalog, ready.agree.catalog]
    · rw [visits'.overdue, visits.overdue, ready.agree.overdue]
    · rw [visits.catalog] at listed
      rw [visits'.disk, visits.disk, ready.agree.files table file own listed]
    · rcases eq_or_ne place page with rfl | ne
      · exact cached
      · rw [visits'.cached place ne, visits.cached place ne, ready.agree.cached place own]
    · rcases eq_or_ne place page with rfl | ne
      · rw [visits'.puts.here, visits.puts.here]
      · rw [visits'.puts.elsewhere place ne, visits.puts.elsewhere place ne,
          ready.agree.holders place own]
  enters := enters_nothing visits.journal visits'.journal (fun _ _ => by rw [visits.disk])
    fun _ _ => by rw [visits'.disk]

theorem acquire_granted (s : Store) (ok : (s.locks.holders page).grant txn mode = .ok holders) :
    ∃ locks, acquire txn page mode s = .ok () { s with locks := locks } ∧
      s.locks.Puts txn page holders locks := by
  obtain ⟨locks, granted, puts⟩ := LockTable.acquire_of_grant ok (s.overdue txn)
  refine ⟨locks, ?_, puts⟩
  simp only [acquire, granted]

/-- A request of an undisturbed transaction that conflicts with others waits unless it is overdue. -/
theorem Undisturbed.acquire_blocked (undisturbed : Undisturbed mine txn space s)
    (own : mine page.table) {blockers : List TxnId}
    (blocked : (s.locks.holders page).grant txn mode = .error blockers) :
    ∃ locks, acquire txn page mode s =
        .error (if s.overdue txn then .failed (.timedOut txn page) else .waiting)
          { s with locks := locks } ∧
      s.locks.Puts txn page (s.locks.holders page) locks := by
  obtain ⟨locks, refused, puts⟩ := LockTable.acquire_of_blocked blocked
    (fun other => undisturbed.calm page other own) (s.overdue txn)
  refine ⟨locks, ?_, puts⟩
  unfold acquire
  cases late : s.overdue txn <;> rw [late] at refused <;> simp only [refused] <;> rfl

/-- There is room for a page that can be read and is not cached. -/
theorem Undisturbed.roomy (undisturbed : Undisturbed mine txn space s) (stores : s.Stores page stored)
    (missing : s.cache.get? page = none) : s.cache.size < s.capacity := by
  have absent : page ∉ s.cache.keys := by
    rw [Dictionary.mem_keys_iff, missing]
    nofun
  have distinct : (page :: s.cache.keys).Nodup := List.nodup_cons.2 ⟨absent, s.cache.nodup_keys⟩
  have fits := undisturbed.room _ distinct fun place mem => undisturbed.within place ?_
  · rwa [List.length_cons, Dictionary.length_keys] at fits
  · rcases List.mem_cons.1 mem with rfl | cached
    · exact stores.extant undisturbed.coherent.catalog
    · exact undisturbed.grounded.cached place (Dictionary.mem_keys_iff.1 cached)

/-- A page that was read for an undisturbed transaction is added to the cache, and nothing leaves. -/
theorem Undisturbed.fetch_stored (undisturbed : Undisturbed mine txn space s) {locks : LockTable}
    (granted : acquire txn page mode s = .ok () { s with locks := locks })
    (puts : s.locks.Puts txn page holders locks) (missing : s.cache.get? page = none)
    (reads : readStored page { s with locks := locks } = .ok stored { s with locks := locks }) :
    ∃ frame after, fetch txn page mode s = .ok frame after ∧ frame.page = stored ∧
      Visits txn page holders s after ∧ after.cached? page = some stored := by
  have stores : s.Stores page stored := ((readStored_leads { s with locks := locks } page).of_ok reads).2
  have ends := fetch_of_loaded granted
    (load_of_stored missing reads (undisturbed.roomy stores missing))
  rw [stores.id_eq] at ends
  refine ⟨_, _, ends, rfl, visits_of_fetch undisturbed.grounded (by rw [ends]; rfl) puts rfl rfl ?_, ?_⟩
  · intro place ne
    simp only [cached?, Dictionary.get?_put, if_neg ne]
  · simp only [cached?, Dictionary.get?_put, if_true, Option.map_some]

/-- Fetches that changed the locks alone, by the same request, did the same. -/
theorem Ready.pair_of_locks (ready : Ready mine txn space s t) (own : mine page.table)
    {locks locks' : LockTable} (puts : s.locks.Puts txn page holders locks)
    (puts' : t.locks.Puts txn page holders locks')
    (ends : Op.final (fetch txn page mode s) = { s with locks := locks })
    (ends' : Op.final (fetch txn page mode t) = { t with locks := locks' }) :
    Pair mine txn s t { s with locks := locks } { t with locks := locks' } :=
  ready.pair_of_visits own (visits_of_fetch ready.first.grounded ends puts rfl rfl fun _ _ => rfl)
    (visits_of_fetch ready.second.grounded ends' puts' rfl rfl fun _ _ => rfl)
    (ready.agree.cached page own)

/-- Fetching a page that is cached in neither store: it is read from its file in both, or cannot be
read in either. -/
theorem Ready.fetch_missing (ready : Ready mine txn space s t) (own : mine page.table)
    (missing : s.cache.get? page = none) (missing' : t.cache.get? page = none)
    {locks locks' : LockTable} (gives : acquire txn page mode s = .ok () { s with locks := locks })
    (gives' : acquire txn page mode t = .ok () { t with locks := locks' })
    (puts : s.locks.Puts txn page holders locks) (puts' : t.locks.Puts txn page holders locks') :
    Same mine txn space (fetch txn page mode) (fetch txn page mode) s t
      fun frame frame' _ _ => frame'.page = frame.page := by
  obtain ⟨answer, reads, reads'⟩ := ready.agree.readStored own
  cases answer with
  | error e =>
    have ends := fetch_of_unloaded gives (load_of_unread missing (reads locks))
    have ends' := fetch_of_unloaded gives' (load_of_unread missing' (reads' locks'))
    have holds : t.locks.holds txn page = s.locks.holds txn page := by
      rw [LockTable.holds, ready.agree.mode? own]
      rfl
    rw [holds] at ends'
    -- a lock that is new is given back, in both or in neither
    cases held : s.locks.holds txn page with
    | true =>
      rw [held] at ends ends'
      exact same_of_error ends ends'
        (ready.pair_of_locks own puts puts' (by rw [ends]; rfl) (by rw [ends']; rfl))
    | false =>
      rw [held] at ends ends'
      exact same_of_error ends ends' (ready.pair_of_locks own puts.release puts'.release
        (by rw [ends]; rfl) (by rw [ends']; rfl))
  | ok stored =>
    obtain ⟨frame, after, ends, pages, visits, cached⟩ :=
      ready.first.fetch_stored gives puts missing (reads locks)
    obtain ⟨frame', after', ends', pages', visits', cached'⟩ :=
      ready.second.fetch_stored gives' puts' missing' (reads' locks')
    exact same_of_ok ends ends'
      (ready.pair_of_visits own visits visits' (cached'.trans cached.symm))
      (ready.first.within.of_same visits.catalog visits.disk)
      (ready.second.within.of_same visits'.catalog visits'.disk) (pages'.trans pages.symm)

/-- Fetching a page of an own table does the same on stores that agree there. -/
theorem Ready.fetch (ready : Ready mine txn space s t) (page : PageId) (own : mine page.table)
    (mode : LockMode) :
    Same mine txn space (fetch txn page mode) (fetch txn page mode) s t
      fun frame frame' _ _ => frame'.page = frame.page := by
  have holders := ready.agree.holders page own
  cases asked : (s.locks.holders page).grant txn mode with
  | error blockers =>
    obtain ⟨locks, refused, puts⟩ := ready.first.acquire_blocked own asked
    obtain ⟨locks', refused', puts'⟩ := ready.second.acquire_blocked own (holders ▸ asked)
    rw [holders] at puts'
    rw [congrFun ready.agree.overdue txn] at refused'
    have ends := fetch_of_refused refused
    have ends' := fetch_of_refused refused'
    exact same_of_error ends ends'
      (ready.pair_of_locks own puts puts' (by rw [ends]; rfl) (by rw [ends']; rfl))
  | ok granted =>
    obtain ⟨locks, gives, puts⟩ := acquire_granted s asked
    obtain ⟨locks', gives', puts'⟩ := acquire_granted t (holders ▸ asked)
    rcases ready.agree.get? own with ⟨missing, missing'⟩ | ⟨frame, frame', cached, cached', pages⟩
    · exact ready.fetch_missing own missing missing' gives gives' puts puts'
    · have ends := fetch_of_cached gives cached
      have ends' := fetch_of_cached gives' cached'
      exact same_of_ok ends ends'
        (ready.pair_of_locks own puts puts' (by rw [ends]; rfl) (by rw [ends']; rfl))
        (ready.first.within.of_same rfl rfl) (ready.second.within.of_same rfl rfl) pages

end Store

end PageStore
