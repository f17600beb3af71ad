import PageStore.Proofs.Answers
import PageStore.Proofs.Query.Turn
import PageStore.Proofs.Schedule.Views
import PageStore.Proofs.Store.Capacity

/-!
# Plans among calm stores

A plan whose tables nobody changes does not tell one store from another: whichever of some calm
stores it meets, a turn ends with the same answer and the same state, and leaves a calm store
(`Turn.Ends`).  The frames that it fetches may differ, the rows on them do not.

`Turn.Repeats` is what is needed of the rows of a part to take them all: one row is taken alike
in all calm stores, there is an end to the rows that comes before the bound on the turns, and where
the end was met it is met again.  Lists, scans (`Serves.repeats`) and aggregates are such parts.
-/

namespace PageStore

namespace Turn

variable {σ χ π α β : Type} {calm : Store → Prop} {turn : Turn σ α} {rest : α → Turn σ β}
  {s after : Store} {state middle left : σ} {answer : Except Stop β} {a : α} {stop : Stop}

/-! ## Ends that do not depend on the store -/

/-- In every calm store a turn ends with one answer and one state, and leaves a calm store. -/
def Ends (turn : Turn σ α) (calm : Store → Prop) (state : σ) (answer : Except Stop α)
    (left : σ) : Prop :=
  ∀ s, calm s → ∃ after, calm after ∧
    turn (s, state) = match answer with
      | .ok a => .ok a (after, left)
      | .error stop => .error stop (after, left)

theorem Ends.bind (first : turn.Ends calm state (.ok a) middle)
    (then' : (rest a).Ends calm middle answer left) :
    (turn >>= rest).Ends calm state answer left := by
  intro s here
  obtain ⟨after, calmed, ran⟩ := first s here
  obtain ⟨later, settled, goesOn⟩ := then' after calmed
  exact ⟨later, settled, (Op.bind_ok ran).trans goesOn⟩

theorem Ends.bind_error (first : turn.Ends calm state (.error stop) left) :
    (turn >>= rest).Ends calm state (.error stop) left := by
  intro s here
  obtain ⟨after, calmed, ran⟩ := first s here
  exact ⟨after, calmed, Op.bind_error ran⟩

theorem ends_pure (a : α) : (pure a : Turn σ α).Ends calm state (.ok a) state :=
  fun s here => ⟨s, here, rfl⟩

theorem ends_fail (e : Error) : (fail e : Turn σ α).Ends calm state (.error (.failed e)) state :=
  fun s here => ⟨s, here, rfl⟩

theorem ends_answer {r : Except Error α} (ok : r = .ok a) :
    (ofExcept r : Turn σ α).Ends calm state (.ok a) state := by
  subst ok
  exact fun s here => ⟨s, here, rfl⟩

theorem ends_refusal {r : Except Error α} {e : Error} (error : r = .error e) :
    (ofExcept r : Turn σ α).Ends calm state (.error (.failed e)) state := by
  subst error
  exact fun s here => ⟨s, here, rfl⟩

theorem ends_state : (Turn.state : Turn σ σ).Ends calm state (.ok state) state :=
  fun s here => ⟨s, here, rfl⟩

theorem ends_setState (new : σ) : (setState new).Ends calm state (.ok ()) new :=
  fun s here => ⟨s, here, rfl⟩

/-- What reads the store has to end alike whichever calm store it read. -/
theorem ends_get {rest : Store × σ → Turn σ β}
    (ends : ∀ s, calm s → (rest (s, state)).Ends calm state answer left) :
    (get >>= rest).Ends calm state answer left :=
  fun s here => ends s here s here

/-- An operation may give another value in each calm store, if what follows does not depend on it. -/
theorem ends_inStore {op : Op α}
    (leads : ∀ s, calm s → ∃ a after, calm after ∧ op s = .ok a after ∧
      (rest a).Ends calm state answer left) :
    (inStore op >>= rest).Ends calm state answer left := by
  intro s here
  obtain ⟨a, after, calmed, ran, ends⟩ := leads s here
  obtain ⟨later, settled, goesOn⟩ := ends after calmed
  exact ⟨later, settled, (Op.bind_ok (inStore_ok state ran)).trans goesOn⟩

theorem Ends.inChild {turn : Turn χ α} {answer : Except Stop α} {child left : χ}
    (ends : turn.Ends calm child answer left) (own : π) :
    (inChild turn : Turn (π × χ) α).Ends calm (own, child) answer (own, left) := by
  intro s here
  obtain ⟨after, calmed, ran⟩ := ends s here
  cases answer with
  | ok a => exact ⟨after, calmed, inChild_ok own ran⟩
  | error stop => exact ⟨after, calmed, inChild_error own ran⟩

/-- How a turn ends in one calm store is how it ends in all. -/
theorem Ends.of_ok {answer : Except Stop α} {last : σ} (ends : turn.Ends calm state answer left)
    (here : calm s) (ok : turn (s, state) = .ok a (after, last)) :
    answer = .ok a ∧ left = last ∧ calm after := by
  obtain ⟨later, calmed, ran⟩ := ends s here
  rw [ok] at ran
  cases answer with
  | ok b =>
    cases ran
    exact ⟨rfl, rfl, calmed⟩
  | error stop => cases ran

/-! ## Taking all rows -/

variable {next : Turn σ (Option Row)} {bound : σ → Store → Nat}

/-- Rows are taken alike in all calm stores, there are fewer of them than the bound, and after the
last there are no more. -/
structure Repeats (next : Turn σ (Option Row)) (calm : Store → Prop) (bound : σ → Store → Nat) :
    Prop where
  ends : ∀ state, ∃ answer left, next.Ends calm state answer left
  finite : ∃ rows : σ → Nat,
    (∀ s state row after left, calm s → next (s, state) = .ok (some row) (after, left) →
      rows left < rows state) ∧
    ∀ s state, calm s → rows state < bound state s
  stays : ∀ s state after left, calm s → next (s, state) = .ok none (after, left) →
    next.Ends calm left (.ok none) left

/-- It is enough to know how one row is taken. -/
theorem Repeats.of_ends (rows : σ → Nat)
    (ends : ∀ state, ∃ answer left, next.Ends calm state answer left ∧
      (answer = .ok none → next.Ends calm left (.ok none) left) ∧
      ∀ row, answer = .ok (some row) → rows left < rows state)
    (fewer : ∀ s state, calm s → rows state < bound state s) : next.Repeats calm bound := by
  refine ⟨fun state => ?_, ⟨rows, fun s state row after left here ran => ?_, fewer⟩, ?_⟩
  · obtain ⟨answer, left, ends, -⟩ := ends state
    exact ⟨answer, left, ends⟩
  · obtain ⟨answer, last, ends, -, falls⟩ := ends state
    obtain ⟨same, rfl, -⟩ := ends.of_ok here ran
    exact falls row same
  · intro s state after left here ran
    obtain ⟨answer, last, ends, stays, -⟩ := ends state
    obtain ⟨same, rfl, -⟩ := ends.of_ok here ran
    exact stays same

/-- All rows are taken alike in all calm stores, by any bound that is not reached, and then there
are no more. -/
theorem pullAll_ends {rows : σ → Nat} {step : α → Row → Turn σ α} (here : calm s)
    (ends : ∀ state, ∃ answer left, next.Ends calm state answer left)
    (falls : ∀ s state row after left, calm s → next (s, state) = .ok (some row) (after, left) →
      rows left < rows state)
    (handles : ∀ a row state, ∃ answer, (step a row).Ends calm state answer state) (state : σ)
    (a : α) :
    ∃ answer left, (∀ bound, rows state < bound →
        (pullAll next step bound a).Ends calm state answer left) ∧
      ∀ b, answer = .ok b → ∃ last, next.Ends calm last (.ok none) left := by
  induction more : rows state using Nat.strongRecOn generalizing state a with
  | ind count ih =>
    have bounded {bound : Nat} (enough : count < bound) : ∃ less, bound = less + 1 :=
      ⟨bound - 1, by omega⟩
    obtain ⟨answer, left, first⟩ := ends state
    match answer, first with
    | .error stop, first =>
      refine ⟨.error stop, left, fun bound enough => ?_, nofun⟩
      obtain ⟨less, rfl⟩ := bounded enough
      exact first.bind_error
    | .ok none, first =>
      refine ⟨.ok a, left, fun bound enough => ?_, fun _ _ => ⟨state, first⟩⟩
      obtain ⟨less, rfl⟩ := bounded enough
      exact first.bind (ends_pure a)
    | .ok (some row), first =>
      obtain ⟨handled, then'⟩ := handles a row left
      match handled, then' with
      | .error stop, then' =>
        refine ⟨.error stop, left, fun bound enough => ?_, nofun⟩
        obtain ⟨less, rfl⟩ := bounded enough
        exact first.bind then'.bind_error
      | .ok b, then' =>
        obtain ⟨after, -, taken⟩ := first s here
        have fewer := falls s state row after left here taken
        obtain ⟨answer, last, others, ended⟩ := ih (rows left) (by omega) left b rfl
        refine ⟨answer, last, fun bound enough => ?_, ended⟩
        obtain ⟨less, rfl⟩ := bounded enough
        exact first.bind (then'.bind (others less (by omega)))

/-- All rows are taken alike in all calm stores, and then there are no more. -/
theorem Repeats.pullAll {step : α → Row → Turn σ α} (repeats : next.Repeats calm bound)
    (here : calm s) (handles : ∀ a row state, ∃ answer, (step a row).Ends calm state answer state)
    (state : σ) (a : α) :
    ∃ answer left,
      (∀ s, calm s → (Turn.pullAll next step (bound state s) a).Ends calm state answer left) ∧
      ∀ b, answer = .ok b → next.Ends calm left (.ok none) left := by
  obtain ⟨rows, falls, fewer⟩ := repeats.finite
  obtain ⟨answer, left, ends, ended⟩ := pullAll_ends here repeats.ends falls handles state a
  refine ⟨answer, left, fun s here => ends _ (fewer s state here), fun b ok => ?_⟩
  obtain ⟨last, none⟩ := ended b ok
  obtain ⟨after, -, ran⟩ := none s here
  exact repeats.stays s last after left here ran

end Turn

/-! ## What a scan meets -/

variable {calm : Store → Prop} {file : HeapFile} {txn : TxnId} {mode : LockMode} {s after : Store}
  {page : PageId} {frame : Frame}

/-- A page has no more rows than bits. -/
theorem Page.length_rows {page : Page} {schema : Schema} {rows : List Row}
    (ok : page.rows schema = .ok rows) : rows.length ≤ 8 * page.bytes.length := by
  have slots : page.slots schema ≤ 8 * page.bytes.length := by
    unfold Page.slots slotCount
    split
    · omega
    · exact Nat.le_trans (Nat.div_le_self _ _) (by omega)
  have used : (page.usedSlots schema).length ≤ page.slots schema := by
    have filtered := List.length_filter_le (headerBit page.bytes) (List.range (page.slots schema))
    rwa [List.length_range] at filtered
  have each := (Answer.forall₂_of_mapM ok).length_eq
  omega

namespace Store

theorem le_foldl_max {sizes : List Nat} {size first : Nat} (mem : size ≤ first ∨ size ∈ sizes) :
    size ≤ sizes.foldl max first := by
  induction sizes generalizing first with
  | nil => simpa using mem
  | cons other sizes ih =>
    rw [List.foldl_cons]
    refine ih ?_
    rcases mem with le | mem
    · exact .inl (by omega)
    · rcases List.mem_cons.1 mem with rfl | later
      · exact .inl (Nat.le_max_right _ _)
      · exact .inr later

/-- What a page shows is no longer than the longest page. -/
theorem Shows.length_le {bytes : Bytes} (shows : s.Shows page bytes) :
    bytes.length ≤ s.longestPage := by
  refine le_foldl_max (.inr ?_)
  rw [List.mem_append]
  cases shows with
  | @cached frame cached =>
    have held : frame ∈ s.cache.values :=
      List.mem_map_of_mem (Dictionary.mem_entries_iff.2 cached)
    exact .inr (List.mem_map_of_mem held)
  | @stored stored _ stores =>
    obtain ⟨file, listed, read⟩ := stores
    obtain ⟨entry, found, rfl⟩ := Catalog.file_eq_ok.1 listed
    have held : entry ∈ s.catalog.values :=
      List.mem_map_of_mem (Dictionary.mem_entries_iff.2 found)
    rw [(HeapFile.read_shape read).2]
    exact .inl (List.mem_map_of_mem held)

end Store

/-- Among some stores nobody changes a table: they agree on the pages of its file and on what these
show, and whichever of them a transaction fetches a page from, it is given the page and the store
is still one of them. -/
structure Serves (calm : Store → Prop) (file : HeapFile) (txn : TxnId) (mode : LockMode) :
    Prop where
  coherent : ∀ s, calm s → s.Coherent
  count : ∀ s t, calm s → calm t → file.pageCount s.disk = file.pageCount t.disk
  shows : ∀ s t number bytes, calm s → calm t → number < file.pageCount s.disk →
    s.Shows ⟨file.table, number⟩ bytes → t.Shows ⟨file.table, number⟩ bytes
  granted : ∀ s number, calm s → number < file.pageCount s.disk → ∃ frame after,
    Store.fetch txn ⟨file.table, number⟩ mode s = .ok frame after ∧ calm after

/-- The number of rows that were read. -/
def found : Except Error (List Row) → Nat
  | .ok rows => rows.length
  | .error _ => 0

/-- In all calm stores a page shows the same bytes, and these are what is fetched. -/
theorem Serves.rows (serves : Serves calm file txn mode) (here : calm s) {number : Nat}
    (inside : number < file.pageCount s.disk) :
    ∃ shown : Except Error (List Row), ∀ t, calm t →
      found shown ≤ 8 * t.longestPage ∧
      ∃ frame after, Store.fetch txn ⟨file.table, number⟩ mode t = .ok frame after ∧ calm after ∧
        frame.page.rows file.schema = shown := by
  have given {t : Store} (calmed : calm t) : ∃ frame after,
      Store.fetch txn ⟨file.table, number⟩ mode t = .ok frame after ∧ calm after ∧
        frame.page.id = ⟨file.table, number⟩ ∧
        ∀ u, calm u → u.Shows ⟨file.table, number⟩ frame.page.bytes := by
    have within : number < file.pageCount t.disk := serves.count s t here calmed ▸ inside
    obtain ⟨frame, after, fetched, later⟩ := serves.granted t number calmed within
    have cached := ((Store.fetch_leads t txn _ mode).of_ok fetched).2.1
    have id := ((serves.coherent after later).faithful _ frame cached).id
    have within : number < file.pageCount after.disk := serves.count s after here later ▸ inside
    exact ⟨frame, after, fetched, later, id,
      fun u other => serves.shows after u number _ later other within (.cached cached)⟩
  obtain ⟨first, _, -, -, id, shows⟩ := given here
  refine ⟨first.page.rows file.schema, fun t calmed => ⟨?_, ?_⟩⟩
  · cases rows : first.page.rows file.schema with
    | error e => exact Nat.zero_le _
    | ok rows' =>
      have short := (shows t calmed).length_le
      have few := Page.length_rows rows
      show rows'.length ≤ _
      omega
  · obtain ⟨frame, after, fetched, later, id', shows'⟩ := given calmed
    have bytes := (shows' t calmed).unique (shows t calmed)
    exact ⟨frame, after, fetched, later,
      Page.rows_of_bytes (id'.trans id.symm) bytes file.schema⟩

/-! ## Scans -/

namespace Plan

open Turn

/-- The number of rows on some pages from one on. -/
def restFrom (shown : Nat → Except Error (List Row)) : (pages number : Nat) → Nat
  | 0, _ => 0
  | pages + 1, number => found (shown number) + restFrom shown pages (number + 1)

/-- The number of rows that a scan has still to give, of a file with so many pages. -/
def rowsLeft (shown : Nat → Except Error (List Row)) (count : Nat) (cursor : Option Cursor) : Nat :=
  (cursor.map fun place => place.pending.length
    + restFrom shown (count - place.nextPage) place.nextPage).getD 0

variable {shown : Nat → Except Error (List Row)} {count : Nat}

theorem restFrom_le {most : Nat} (few : ∀ number < count, found (shown number) ≤ most)
    (pages number : Nat) (inside : number + pages ≤ count) :
    restFrom shown pages number ≤ pages * most := by
  induction pages generalizing number with
  | zero => exact Nat.zero_le _
  | succ pages ih =>
    have first := few number (by omega)
    have others := ih (number + 1) (by omega)
    rw [restFrom, Nat.succ_mul]
    omega

/-- A scan goes on to the next row on its pages, or to the end of the file. -/
theorem turnPages_ends
    (fetches : ∀ s number, calm s → number < count → ∃ frame after,
      Store.fetch txn ⟨file.table, number⟩ mode s = .ok frame after ∧ calm after ∧
        frame.page.rows file.schema = shown number)
    (pages number : Nat) (inside : pages = count - number) (cursor : Option Cursor) :
    ∃ answer left, (turnPages file txn mode pages number).Ends calm cursor answer left ∧
      (answer = .ok none → (pages = 0 ∧ left = cursor) ∨ left = some ⟨count, []⟩) ∧
      ∀ row, answer = .ok (some row) → rowsLeft shown count left < restFrom shown pages number := by
  induction pages generalizing number cursor with
  | zero => exact ⟨.ok none, cursor, ends_pure none, fun _ => .inl ⟨rfl, rfl⟩, nofun⟩
  | succ pages ih =>
    cases read : shown number with
    | error e =>
      refine ⟨.error (.failed e), some ⟨number + 1, []⟩, fun s here => ?_, nofun, nofun⟩
      obtain ⟨frame, after, fetched, later, rows⟩ := fetches s number here (by omega)
      refine ⟨after, later, (turnPages_succ ..).trans ?_⟩
      simp only [fetched, rows, read]
    | ok rows =>
      cases rows with
      | nil =>
        obtain ⟨answer, left, ends, done, falls⟩ :=
          ih (number + 1) (by omega) (some ⟨number + 1, []⟩)
        refine ⟨answer, left, fun s here => ?_, fun same => ?_, fun row same => ?_⟩
        · obtain ⟨frame, after, fetched, later, rows⟩ := fetches s number here (by omega)
          obtain ⟨last, settled, ran⟩ := ends after later
          refine ⟨last, settled, (turnPages_succ ..).trans ?_⟩
          simp only [fetched, rows, read]
          exact ran
        · rcases done same with ⟨rfl, rfl⟩ | last
          · have all : number + 1 = count := by omega
            exact .inr (by rw [all])
          · exact .inr last
        · rw [restFrom, read]
          have := falls row same
          omega
      | cons row rows =>
        refine ⟨.ok (some row), some ⟨number + 1, rows⟩, fun s here => ?_, nofun, ?_⟩
        · obtain ⟨frame, after, fetched, later, rows⟩ := fetches s number here (by omega)
          refine ⟨after, later, (turnPages_succ ..).trans ?_⟩
          simp only [fetched, rows, read]
        · rintro _ ⟨⟩
          rw [restFrom, read, rowsLeft]
          simp only [Option.map_some, Option.getD_some, found, List.length_cons]
          have : count - (number + 1) = pages := by omega
          rw [this]
          omega

theorem scanNext_ends (counts : ∀ s, calm s → file.pageCount s.disk = count)
    (fetches : ∀ s number, calm s → number < count → ∃ frame after,
      Store.fetch txn ⟨file.table, number⟩ mode s = .ok frame after ∧ calm after ∧
        frame.page.rows file.schema = shown number)
    (cursor : Option Cursor) :
    ∃ answer left, (scanNext file txn mode).Ends calm cursor answer left ∧
      (answer = .ok none → ∃ number, count - number = 0 ∧ left = some ⟨number, []⟩) ∧
      ∀ row, answer = .ok (some row) → rowsLeft shown count left < rowsLeft shown count cursor := by
  match cursor with
  | none => exact ⟨.error (.failed (.notOpen .scan)), none, ends_state.bind (ends_fail _), nofun, nofun⟩
  | some ⟨number, row :: rows⟩ =>
    refine ⟨.ok (some row), some ⟨number, rows⟩,
      ends_state.bind ((ends_setState _).bind (ends_pure _)), nofun, fun _ _ => ?_⟩
    simp only [rowsLeft, Option.map_some, Option.getD_some, List.length_cons]
    omega
  | some ⟨number, []⟩ =>
    obtain ⟨answer, left, ends, done, falls⟩ :=
      turnPages_ends fetches (count - number) number rfl (some ⟨number, []⟩)
    refine ⟨answer, left, ends_state.bind (ends_inStore fun s here => ?_), fun same => ?_,
      fun row same => ?_⟩
    · exact ⟨_, s, here, rfl, counts s here ▸ ends⟩
    · rcases done same with ⟨past, rfl⟩ | rfl
      · exact ⟨number, past, rfl⟩
      · exact ⟨count, Nat.sub_self count, rfl⟩
    · simpa [rowsLeft] using falls row same

/-- A scan has fewer rows to give than its supply. -/
theorem rowsLeft_lt_supply (counts : file.pageCount s.disk = count)
    (few : ∀ number < count, found (shown number) ≤ 8 * s.longestPage) (schema : Schema)
    (cursor : Option Cursor) :
    rowsLeft shown count cursor < supply (.scan file schema txn mode) cursor s := by
  have bound (pages number : Nat) (inside : number + pages ≤ count) :
      restFrom shown pages number ≤ s.rowBound file := by
    have pages_le : pages ≤ (s.disk.read file.path).length := by
      have whole : count ≤ (s.disk.read file.path).length := counts ▸ Nat.div_le_self _ _
      omega
    calc restFrom shown pages number
        ≤ pages * (8 * s.longestPage) := restFrom_le few pages number inside
      _ ≤ s.rowBound file := Nat.mul_le_mul_right _ (by omega)
  match cursor with
  | none => exact Nat.lt_of_lt_of_le (Nat.zero_lt_succ _) (Nat.le_add_left _ _)
  | some ⟨number, pending⟩ =>
    show pending.length + restFrom shown (count - number) number
      < pending.length + s.rowBound file + 1
    by_cases inside : number ≤ count
    · have := bound (count - number) number (by omega)
      omega
    · rw [show count - number = 0 by omega]
      show pending.length + 0 < _
      omega

end Plan

/-- Among stores in which nobody changes a table, its rows are taken alike. -/
theorem Serves.repeats (serves : Serves calm file txn mode) (here : calm s) (schema : Schema) :
    (Plan.scanNext file txn mode).Repeats calm (Plan.supply (.scan file schema txn mode)) := by
  have each (number : Nat) : ∃ shown : Except Error (List Row),
      number < file.pageCount s.disk → ∀ t, calm t → found shown ≤ 8 * t.longestPage ∧
        ∃ frame after, Store.fetch txn ⟨file.table, number⟩ mode t = .ok frame after ∧
          calm after ∧ frame.page.rows file.schema = shown := by
    by_cases inside : number < file.pageCount s.disk
    · obtain ⟨shown, reads⟩ := serves.rows here inside
      exact ⟨shown, fun _ => reads⟩
    · exact ⟨.ok [], fun within => absurd within inside⟩
  choose shown reads using each
  have counts (t : Store) (calmed : calm t) : file.pageCount t.disk = file.pageCount s.disk :=
    serves.count t s calmed here
  have fetches (t : Store) (number : Nat) (calmed : calm t)
      (inside : number < file.pageCount s.disk) := (reads number inside t calmed).2
  refine .of_ends (Plan.rowsLeft shown (file.pageCount s.disk)) (fun cursor => ?_)
    fun t cursor calmed => Plan.rowsLeft_lt_supply (counts t calmed)
      (fun number inside => (reads number inside t calmed).1) schema cursor
  obtain ⟨answer, left, ends, done, falls⟩ := Plan.scanNext_ends counts fetches cursor
  refine ⟨answer, left, ends, fun same => ?_, falls⟩
  obtain ⟨number, past, rfl⟩ := done same
  refine Turn.ends_state.bind (Turn.ends_inStore fun t calmed => ⟨_, t, calmed, rfl, ?_⟩)
  rw [counts t calmed, past]
  exact Turn.ends_pure none

/-! ## Tables whose pages the reader holds -/

/-- The pages of a file are cached with the given bytes, and a transaction holds them. -/
structure Pinned (file : HeapFile) (txn : TxnId) (mode : LockMode) (contents : List Bytes)
    (s : Store) : Prop where
  coherent : s.Coherent
  locks : s.locks.Consistent
  count : file.pageCount s.disk = contents.length
  cached : ∀ number bytes, contents[number]? = some bytes →
    ∃ frame, s.cache.get? ⟨file.table, number⟩ = some frame ∧ frame.page.bytes = bytes
  held : ∀ number < contents.length, s.locks.mode? txn ⟨file.table, number⟩ = some mode ∨
    s.locks.mode? txn ⟨file.table, number⟩ = some .exclusive

/-- A transaction that holds a cached page is given it, and only the locks are written anew. -/
theorem Store.fetch_of_held (consistent : s.locks.Consistent)
    (held : s.locks.mode? txn page = some mode ∨ s.locks.mode? txn page = some .exclusive)
    (cached : s.cache.get? page = some frame) :
    ∃ locks, Store.fetch txn page mode s = .ok frame { s with locks := locks } := by
  have grants : (s.locks.holders page).grant txn mode = .ok (s.locks.holders page) := by
    rcases held with same | exclusive
    · cases mode with
      | shared => exact (consistent.exclusive page).grant_of_shared same
      | exclusive => exact Holders.grant_of_exclusive same .exclusive
    · exact Holders.grant_of_exclusive exclusive mode
  have granted : (s.locks.acquire txn page mode (s.overdue txn)).1 = .granted := by
    rcases s.locks.acquire_cases txn page mode (s.overdue txn) with
      ⟨_, _, eq⟩ | ⟨blockers, refuses, _⟩
    · rw [eq]
    · rw [grants] at refuses
      cases refuses
  obtain ⟨locked, asks⟩ := Store.acquire_ok granted
  have same := ((Store.acquire_leads s txn page mode).of_ok asks).1
  have loads : Store.load page locked = .ok frame locked := by
    unfold Store.load
    rw [same, cached]
  refine ⟨locked.locks, ?_⟩
  unfold Store.fetch
  rw [asks]
  simp only [loads]
  rw [← same]

/-- While a transaction holds the pages of a table, nobody changes them, and it is granted them. -/
theorem pinned_serves (file : HeapFile) (txn : TxnId) (mode : LockMode) (contents : List Bytes) :
    Serves (Pinned file txn mode contents) file txn mode where
  coherent s pinned := pinned.coherent
  count s t pinned pinned' := pinned.count.trans pinned'.count.symm
  shows s t number bytes pinned pinned' inside shows := by
    rw [pinned.count] at inside
    have here : contents[number]? = some contents[number] := List.getElem?_eq_getElem inside
    obtain ⟨frame, cached, same⟩ := pinned.cached number _ here
    obtain ⟨frame', cached', same'⟩ := pinned'.cached number _ here
    have bytes' : bytes = frame'.page.bytes := by
      rw [shows.unique (.cached cached), same, same']
    exact bytes' ▸ .cached cached'
  granted s number pinned inside := by
    rw [pinned.count] at inside
    obtain ⟨frame, cached, -⟩ := pinned.cached number _ (List.getElem?_eq_getElem inside)
    obtain ⟨locks, fetched⟩ := Store.fetch_of_held pinned.locks (pinned.held number inside) cached
    have fetches := ((Store.fetch_leads s txn _ mode).of_ok fetched).1
    refine ⟨frame, _, fetched, pinned.coherent.turnover fetches.toTurnover,
      fetches.locks.consistent pinned.locks, pinned.count, pinned.cached, fun place within => ?_⟩
    rcases pinned.held place within with same | exclusive
    · exact fetches.locks.mine _ _ same
    · exact .inr (fetches.locks.exclusive exclusive)

/-! ## Lists and aggregates -/

namespace Plan

open Turn

theorem listNext_repeats (calm : Store → Prop) (schema : Schema) (rows : List Row) :
    (listNext rows).Repeats calm (supply (.list schema rows)) := by
  have past {given : Nat} (beyond : rows[given]? = none) :
      (listNext rows).Ends calm (some given) (.ok none) (some given) := by
    refine ends_state.bind ?_
    simp only [beyond]
    exact ends_pure none
  refine .of_ends (fun given => (given.map (rows.length - ·)).getD 0) (fun given => ?_) ?_
  · match given with
    | none => exact ⟨.error (.failed (.notOpen .list)), none, ends_state.bind (ends_fail _), nofun, nofun⟩
    | some given =>
      cases taken : rows[given]? with
      | none => exact ⟨.ok none, some given, past taken, fun _ => past taken, nofun⟩
      | some row =>
        refine ⟨.ok (some row), some (given + 1), ends_state.bind ?_, nofun, fun _ _ => ?_⟩
        · simp only [taken]
          exact (ends_setState _).bind (ends_pure _)
        · have inside := (List.getElem?_eq_some_iff.1 taken).1
          show rows.length - (given + 1) < rows.length - given
          omega
  · intro s given _
    cases given with
    | none => exact Nat.zero_lt_succ _
    | some given =>
      show rows.length - given < rows.length + 1
      omega

theorem aggregateNext_repeats {σ : Type} (calm : Store → Prop) :
    (aggregateNext (σ := σ)).Repeats calm fun state _ => (state.1.map List.length).getD 0 + 1 := by
  refine .of_ends _ (fun (left, child) => ?_) fun s state _ => Nat.lt_succ_self _
  match left with
  | none => exact ⟨.error (.failed (.notOpen .aggregate)), _, ends_state.bind (ends_fail _), nofun, nofun⟩
  | some [] =>
    have past : aggregateNext.Ends calm (some [], child) (.ok none) (some [], child) :=
      ends_state.bind (ends_pure none)
    exact ⟨.ok none, _, past, fun _ => past, nofun⟩
  | some (row :: rows) =>
    refine ⟨.ok (some row), (some rows, child),
      ends_state.bind ((ends_setState _).bind (ends_pure _)), nofun, fun _ _ => ?_⟩
    exact Nat.lt_succ_self rows.length

end Plan

end PageStore
