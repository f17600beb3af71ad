import PageStore.Proofs.Query.Batches
import PageStore.Proofs.Query.Cursor
import PageStore.Proofs.Query.Listing
import PageStore.Store.Kept

/-!
# Scans that are stopped and go on

A scan can be stopped at any page: the page is refused, or it cannot be loaded, or its rows cannot
be read.  The next call goes on from where the scan then is.

Every page that a scan has passed was turned once and in order, and its rows were given or are still
to be given, unless they could not be read (`Plan.Accounts`).  A page that is refused is not passed.
One whose rows cannot be read is, for the scan moves on before it reads them: its rows are lost even
if they can be read later (`Plan.scan_passes_unreadable_page`).
-/

namespace PageStore

open Store

/-- The rows of a page that could not be read are what stopped a call. -/
def Stop.unread? : Stop → Option Error
  | .failed (.notDecoded fault) => some (.notDecoded fault)
  | _ => none

namespace Plan

open Turn

/-! ## What calls of a scan say of its pages -/

/-- The row of an answer. -/
def given? : Except Stop (Option Row) → Option Row
  | .ok row => row
  | .error _ => none

/-- Why rows could not be read, if that is what an answer says. -/
def unread? : Except Stop (Option Row) → Option Error
  | .ok _ => none
  | .error stop => stop.unread?

/-- The rows of a page that could be read. -/
def readable : Except Error (List Row) → List Row
  | .ok rows => rows
  | .error _ => []

/-- Why the rows of a page could not be read. -/
def unreadable? : Except Error (List Row) → Option Error
  | .ok _ => none
  | .error e => some e

/-- A scan turns the pages between two numbers, each once and in order, on stores of some kind; and
what it reads of them. -/
inductive Browses (kind : Store → Prop) (file : HeapFile) (txn : TxnId) (mode : LockMode) :
    Nat → List (Except Error (List Row)) → Nat → Prop
  | nil (number : Nat) : Browses kind file txn mode number [] number
  | cons {s after : Store} {number last : Nat} {frame : Frame} {read : List (Except Error (List Row))}
      (here : kind s) (fetched : fetch txn ⟨file.table, number⟩ mode s = .ok frame after)
      (rest : Browses kind file txn mode (number + 1) read last) :
      Browses kind file txn mode number (frame.page.rows file.schema :: read) last

/-- Calls that take a scan from one place to another account for the pages between: the rows that
could be read were given, or are left to give; the pages that could not be read are those that
stopped a call.  Calls that were all stopped leave the rows to give as they were. -/
structure Accounts (kind : Store → Prop) (file : HeapFile) (txn : TxnId) (mode : LockMode)
    (place : Cursor) (answers : List (Except Stop (Option Row))) (read : List (Except Error (List Row)))
    (last : Cursor) : Prop where
  browses : Browses kind file txn mode place.nextPage read last.nextPage
  rows : place.pending ++ read.flatMap readable = answers.filterMap given? ++ last.pending
  unread : read.filterMap unreadable? = answers.filterMap unread?
  stopped : (∀ answer ∈ answers, ∃ stop, answer = .error stop) → last.pending = place.pending

variable {kind : Store → Prop} {file : HeapFile} {txn : TxnId} {mode : LockMode} {s after : Store}
  {frame : Frame} {number middle last : Nat} {place between end' : Cursor}
  {answers later : List (Except Stop (Option Row))} {read more : List (Except Error (List Row))}

theorem Browses.append (first : Browses kind file txn mode number read middle)
    (second : Browses kind file txn mode middle more last) :
    Browses kind file txn mode number (read ++ more) last := by
  induction first with
  | nil => exact second
  | cons here fetched _ ih => exact .cons here fetched (ih second)

/-- No page is left out. -/
theorem Browses.add_length (browses : Browses kind file txn mode number read last) :
    number + read.length = last := by
  induction browses with
  | nil => rfl
  | cons _ _ _ ih => rw [List.length_cons, Nat.add_comm _ 1, ← Nat.add_assoc, ih]

theorem Accounts.trans (first : Accounts kind file txn mode place answers read between)
    (second : Accounts kind file txn mode between later more end') :
    Accounts kind file txn mode place (answers ++ later) (read ++ more) end' where
  browses := first.browses.append second.browses
  rows := by
    rw [List.flatMap_append, List.filterMap_append, ← List.append_assoc, first.rows,
      List.append_assoc, List.append_assoc, second.rows]
  unread := by rw [List.filterMap_append, List.filterMap_append, first.unread, second.unread]
  stopped all := by
    rw [second.stopped fun answer mem => all answer (List.mem_append_right _ mem),
      first.stopped fun answer mem => all answer (List.mem_append_left _ mem)]

/-! ## One call -/

/-- A place accounts for itself. -/
theorem accounts_self (kind : Store → Prop) (file : HeapFile) (txn : TxnId) (mode : LockMode)
    (place : Cursor) :
    Accounts kind file txn mode place [] [] place where
  browses := .nil _
  rows := List.append_nil _
  unread := rfl
  stopped _ := rfl

/-- A call that is stopped by no page accounts for none. -/
theorem accounts_stop (kind : Store → Prop) (file : HeapFile) (txn : TxnId) (mode : LockMode)
    (place : Cursor) {stop : Stop} (other : stop.unread? = none) :
    Accounts kind file txn mode place [.error stop] [] place where
  browses := .nil _
  rows := List.append_nil _
  unread := by
    rw [List.filterMap_cons_none (show unread? (.error stop) = none from other)]
    rfl
  stopped _ := rfl

/-- Why a page is refused is not that its rows cannot be read. -/
theorem unread?_of_fetch {stop : Stop}
    (refuses : fetch txn ⟨file.table, number⟩ mode s = .error stop after) :
    stop.unread? = none := by
  cases stop with
  | waiting => rfl
  | failed e =>
    cases e with
    | notDecoded fault => exact absurd refuses (decodes_fetch s txn _ mode fault after)
    | _ => rfl

/-- Why the rows of a page cannot be read is what the scan says. -/
theorem unread?_of_rows {page : Page} {schema : Schema} {e : Error}
    (fails : page.rows schema = .error e) : (Stop.failed e).unread? = some e := by
  obtain ⟨slot, _, fails⟩ := Answer.exists_of_mapM_error fails
  unfold Page.storedRow at fails
  split at fails
  · cases fails
  · cases fails
    rfl

/-- One page with what is answered of it. -/
theorem accounts_page {rows : List Row} (here : kind s)
    (fetched : fetch txn ⟨file.table, number⟩ mode s = .ok frame after)
    (given : readable (frame.page.rows file.schema) = answers.filterMap given? ++ rows)
    (unread : [frame.page.rows file.schema].filterMap unreadable? = answers.filterMap unread?)
    (stopped : (∀ answer ∈ answers, ∃ stop, answer = .error stop) → rows = []) :
    Accounts kind file txn mode ⟨number, []⟩ answers [frame.page.rows file.schema]
      ⟨number + 1, rows⟩ where
  browses := .cons here fetched (.nil _)
  rows := by
    rw [List.nil_append, List.flatMap_cons, List.flatMap_nil, List.append_nil]
    exact given
  unread := unread
  stopped := stopped

section

variable (keeps : ∀ s number frame after, kind s →
  fetch txn ⟨file.table, number⟩ mode s = .ok frame after → kind after)

include keeps

/-- Pages without rows have nothing to account for. -/
theorem Skims.accounts {now ended : Store × Nat} (skims : Skims file txn mode now ended)
    (here : kind now.1) :
    kind ended.1 ∧ ∃ read, Accounts kind file txn mode ⟨now.2, []⟩ [] read ⟨ended.2, []⟩ := by
  induction skims with
  | nil => exact ⟨here, [], accounts_self kind file txn mode _⟩
  | cons _ fetched empty _ ih =>
    obtain ⟨there, read, accounts⟩ := ih (keeps _ _ _ _ here fetched)
    have first : Accounts kind file txn mode _ [] _ ⟨_, []⟩ :=
      accounts_page here fetched (by rw [empty]; rfl) (by rw [empty]; rfl) fun _ => rfl
    exact ⟨there, _, first.trans accounts⟩

/-- What one call of a scan accounts for. -/
theorem accounts_next (here : kind s) (place : Cursor) :
    match scanNext file txn mode (s, some place) with
    | .ok row now => ∃ read last, now.2 = some last ∧
        Accounts kind file txn mode place [.ok row] read last
    | .error stop now => ∃ read last, now.2 = some last ∧
        Accounts kind file txn mode place [.error stop] read last := by
  obtain ⟨number, pending⟩ := place
  cases pending with
  | cons row pending =>
    exact ⟨[], ⟨number, pending⟩, rfl, .nil _, List.append_nil _, rfl, fun all => by
      obtain ⟨stop, given⟩ := all _ List.mem_cons_self
      cases given⟩
  | nil =>
    have meets := scanNext_meets s file txn mode number
    generalize scanNext file txn mode (s, some ⟨number, []⟩) = call at meets ⊢
    cases meets with
    | @ends _ last skims _ =>
      obtain ⟨_, read, skimmed⟩ := skims.accounts keeps here
      have none : Accounts kind file txn mode ⟨last, []⟩ [.ok none] [] ⟨last, []⟩ :=
        ⟨.nil _, rfl, rfl, fun _ => rfl⟩
      exact ⟨_, _, rfl, skimmed.trans none⟩
    | @gives _ _ last _ row rows skims _ fetched found =>
      obtain ⟨there, read, skimmed⟩ := skims.accounts keeps here
      have page : Accounts kind file txn mode ⟨last, []⟩ [.ok (some row)] _ ⟨last + 1, rows⟩ :=
        accounts_page there fetched (by rw [found]; rfl) (by rw [found]; rfl) fun all => by
          obtain ⟨stop, given⟩ := all _ List.mem_cons_self
          cases given
      exact ⟨_, _, rfl, skimmed.trans page⟩
    | @refused _ _ last stop skims _ refuses =>
      obtain ⟨_, read, skimmed⟩ := skims.accounts keeps here
      exact ⟨_, _, rfl, skimmed.trans
        (accounts_stop kind file txn mode ⟨last, []⟩ (unread?_of_fetch refuses))⟩
    | @unread _ _ last _ e skims _ fetched fails =>
      obtain ⟨there, read, skimmed⟩ := skims.accounts keeps here
      have told : unread? (.error (.failed e)) = some e := unread?_of_rows fails
      have page : Accounts kind file txn mode ⟨last, []⟩ [.error (.failed e)] _ ⟨last + 1, []⟩ :=
        accounts_page there fetched (by rw [fails]; rfl)
          (by rw [fails, List.filterMap_cons_some told]; rfl) fun _ => rfl
      exact ⟨_, _, rfl, skimmed.trans page⟩

/-! ## Calls one after another -/

/-- An open scan is somewhere after any calls, and they account for the pages before that place.
From there it gives the rows that are left of its last page, and then those of each page that
follows. -/
theorem scan_accounts_for_pages {schema : Schema} {ended : Option Cursor}
    (asked : Asked kind (scan file schema txn mode).next (some place) answers ended) :
    ∃ read last, ended = some last ∧ Accounts kind file txn mode place answers read last ∧
      ∀ t, forget ((scan file schema txn mode).collect (t, ended)) =
        (do return last.pending ++ (← readPages file txn mode
          (file.pageCount t.disk - last.nextPage) last.nextPage) : Op _) t := by
  suffices accounts : ∃ read last, ended = some last ∧
      Accounts kind file txn mode place answers read last by
    obtain ⟨read, last, rfl, accounts⟩ := accounts
    exact ⟨read, last, rfl, accounts, fun t => collect_scan file schema txn mode t last⟩
  change Asked _ (scanNext file txn mode) _ _ _ at asked
  -- on the calls, each of which begins where the one before has left the scan
  generalize opened : some place = now at asked
  induction asked generalizing place with
  | nil => exact ⟨[], place, opened.symm, accounts_self kind file txn mode place⟩
  | answered here gives _ ih =>
    subst opened
    have first := accounts_next keeps here place
    rw [gives] at first
    obtain ⟨read, between, same, accounts⟩ := first
    obtain ⟨more, last, rfl, rest⟩ := ih same.symm
    exact ⟨read ++ more, last, rfl, accounts.trans rest⟩
  | stopped here stops _ ih =>
    subst opened
    have first := accounts_next keeps here place
    rw [stops] at first
    obtain ⟨read, between, same, accounts⟩ := first
    obtain ⟨more, last, rfl, rest⟩ := ih same.symm
    exact ⟨read ++ more, last, rfl, accounts.trans rest⟩

end

/-! ## A page that cannot be read -/

/-- The file of a table of texts, with pages of one slot. -/
def letterFile : HeapFile := ⟨TableId.ofPath "t", "t", ⟨[⟨.text, none⟩]⟩, 133⟩

/-- A page that holds a text of one byte. -/
def letterPage (letter : UInt8) : Bytes := [1, 0, 0, 0, 1, letter] ++ Bytes.zeros 127

/-- A store whose table has a page that holds no text, and then one that holds a letter. -/
def letters : Store :=
  { Store.start ⟨default, Dictionary.empty.put "t" (letterPage 0xff ++ letterPage 0x61)⟩ 8
      (fun _ => false) (.memory .empty) with
    catalog := Dictionary.empty.put letterFile.table ⟨"t", letterFile⟩ }

/-- What a turn answers, and the state that it leaves, say how it stopped. -/
theorem eq_error_of_ended {σ α : Type} {result : EStateM.Result Stop (Store × σ) α} {stop : Stop}
    {left : σ} (told : Op.answer (forget result) = .error stop) (moved : (ended result).2 = left) :
    result = .error stop ((ended result).1, left) := by
  rcases result with ⟨a, after, state⟩ | ⟨other, after, state⟩
  · cases told
  · cases told
    cases moved
    rfl

/-- The statement above for a call that is stopped by the first of two pages. -/
theorem scan_accounts_for_pages_of_unreadable :
    let kind (s : Store) := s.disk = letters.disk
    let plan : Plan := .scan letterFile letterFile.schema 0 .shared
    let fault : Error := .notDecoded (.notText ⟨0, some 1⟩)
    ((∀ s number frame after, kind s →
        fetch 0 ⟨letterFile.table, number⟩ .shared s = .ok frame after → kind after) ∧
      Asked kind plan.next (some ⟨0, []⟩ : Option Cursor) [.error (.failed fault)]
        (some ⟨1, []⟩ : Option Cursor)) ∧
    Accounts kind letterFile 0 .shared ⟨0, []⟩ [.error (.failed fault)] [.error fault] ⟨1, []⟩ ∧
      ∀ t, forget (plan.collect (t, (some ⟨1, []⟩ : Option Cursor))) =
        (do return [] ++ (← readPages letterFile 0 .shared
          (letterFile.pageCount t.disk - 1) 1) : Op _) t := by
  intro kind plan fault
  have keeps s number frame after (here : kind s)
      (fetched : fetch 0 ⟨letterFile.table, number⟩ .shared s = .ok frame after) : kind after :=
    ((fetch_leads s 0 _ .shared).of_ok fetched).1.disk.trans here
  have stops := eq_error_of_ended
    (by decide +kernel : Op.answer (forget (scanNext letterFile 0 .shared (letters, some ⟨0, []⟩))) =
      .error (.failed fault))
    (by decide +kernel : (ended (scanNext letterFile 0 .shared (letters, some ⟨0, []⟩))).2 =
      some ⟨1, []⟩)
  have asked : Asked kind plan.next (some ⟨0, []⟩ : Option Cursor) [.error (.failed fault)]
      (some ⟨1, []⟩ : Option Cursor) := .stopped rfl stops (.nil _)
  obtain ⟨read, last, same, accounts, rest⟩ := scan_accounts_for_pages keeps asked
  cases same
  have found : read = [.error fault] := by
    have one : 0 + read.length = 1 := accounts.browses.add_length
    obtain ⟨page, rfl⟩ := List.length_eq_one_iff.1 (Nat.zero_add _ ▸ one)
    have told : [page].filterMap unreadable? = [fault] := accounts.unread
    cases page with
    | ok rows => cases told
    | error e =>
      cases told
      rfl
  subst found
  exact ⟨⟨keeps, asked⟩, accounts, rest⟩

/-- The rows of a page that stopped a call are not given when the page can be read again. -/
theorem scan_passes_unreadable_page :
    let plan : Plan := .scan letterFile letterFile.schema 0 .shared
    let row (number : Nat) (letter : String) : Row :=
      ⟨[.text letter], some ⟨⟨letterFile.table, number⟩, 0⟩⟩
    let repair : Op Unit := do
      let frame ← fetch 0 ⟨letterFile.table, 0⟩ .exclusive
      let _ ← writeRef frame.ref 0 5 [0x62]
    let stopped := plan.next (letters, (some ⟨0, []⟩ : Option Cursor))
    let repaired := Op.final (repair (ended stopped).1)
    Op.answer (forget stopped) = .error (.failed (.notDecoded (.notText ⟨0, some 1⟩))) ∧
      (ended stopped).2 = (some ⟨1, []⟩ : Option Cursor) ∧
      Op.answer (scanAll 0 letterFile.table .shared repaired) = .ok [row 0 "b", row 1 "a"] ∧
      Op.answer (forget (plan.collect (repaired, (ended stopped).2))) = .ok [row 1 "a"] := by
  intro plan row repair stopped repaired
  refine ⟨by decide +kernel, ?_, by decide +kernel, by decide +kernel⟩
  show (ended (scanNext letterFile 0 .shared (letters, some ⟨0, []⟩))).2 = some ⟨1, []⟩
  decide +kernel

end Plan

end PageStore
