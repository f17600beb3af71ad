import PageStore.Proofs.Query.Scan

/-!
# One call of a scan

A scan that has given the rows of its last page turns pages until it finds one with rows.
`Plan.Meets` says how that can end: behind the last page of the file, with the first row of a page,
with a page that is refused, or with one whose rows cannot be read.  In each case the pages before
were fetched and held no rows (`Plan.Skims`).
-/

namespace PageStore

open Store

namespace Plan

open Turn

variable {file : HeapFile} {txn : TxnId} {mode : LockMode} {s after : Store} {number : Nat}

/-- Pages of a file are fetched one after another, and none of them has rows. -/
inductive Skims (file : HeapFile) (txn : TxnId) (mode : LockMode) :
    Store × Nat → Store × Nat → Prop
  | nil (now : Store × Nat) : Skims file txn mode now now
  | cons {s middle : Store} {number : Nat} {frame : Frame} {last : Store × Nat}
      (inside : number < file.pageCount s.disk)
      (fetched : fetch txn ⟨file.table, number⟩ mode s = .ok frame middle)
      (empty : frame.page.rows file.schema = .ok [])
      (rest : Skims file txn mode (middle, number + 1) last) : Skims file txn mode (s, number) last

/-- What a scan meets that is to turn to a page. -/
inductive Meets (file : HeapFile) (txn : TxnId) (mode : LockMode) (now : Store × Nat) :
    EStateM.Result Stop (Store × Option Cursor) (Option Row) → Prop
  | ends {s : Store} {number : Nat} (skims : Skims file txn mode now (s, number))
      (past : file.pageCount s.disk ≤ number) :
      Meets file txn mode now (.ok none (s, some ⟨number, []⟩))
  | gives {s after : Store} {number : Nat} {frame : Frame} {row : Row} {rows : List Row}
      (skims : Skims file txn mode now (s, number)) (inside : number < file.pageCount s.disk)
      (fetched : fetch txn ⟨file.table, number⟩ mode s = .ok frame after)
      (found : frame.page.rows file.schema = .ok (row :: rows)) :
      Meets file txn mode now (.ok (some row) (after, some ⟨number + 1, rows⟩))
  | refused {s after : Store} {number : Nat} {stop : Stop}
      (skims : Skims file txn mode now (s, number)) (inside : number < file.pageCount s.disk)
      (refuses : fetch txn ⟨file.table, number⟩ mode s = .error stop after) :
      Meets file txn mode now (.error stop (after, some ⟨number, []⟩))
  | unread {s after : Store} {number : Nat} {frame : Frame} {e : Error}
      (skims : Skims file txn mode now (s, number)) (inside : number < file.pageCount s.disk)
      (fetched : fetch txn ⟨file.table, number⟩ mode s = .ok frame after)
      (fails : frame.page.rows file.schema = .error e) :
      Meets file txn mode now (.error (.failed e) (after, some ⟨number + 1, []⟩))

/-- A page without rows before those that a scan meets. -/
theorem Meets.cons {frame : Frame} (inside : number < file.pageCount s.disk)
    (fetched : fetch txn ⟨file.table, number⟩ mode s = .ok frame after)
    (empty : frame.page.rows file.schema = .ok [])
    {result : EStateM.Result Stop (Store × Option Cursor) (Option Row)}
    (meets : Meets file txn mode (after, number + 1) result) :
    Meets file txn mode (s, number) result := by
  cases meets with
  | ends skims past => exact .ends (.cons inside fetched empty skims) past
  | gives skims inside' fetched' found =>
    exact .gives (.cons inside fetched empty skims) inside' fetched' found
  | refused skims inside' refuses =>
    exact .refused (.cons inside fetched empty skims) inside' refuses
  | unread skims inside' fetched' fails =>
    exact .unread (.cons inside fetched empty skims) inside' fetched' fails

/-- A scan that is to turn to a page meets something. -/
theorem scanNext_meets (s : Store) (file : HeapFile) (txn : TxnId) (mode : LockMode)
    (number : Nat) :
    Meets file txn mode (s, number) (scanNext file txn mode (s, some ⟨number, []⟩)) := by
  -- on the number of pages that the file has from this one on, which turning a page makes less
  generalize pages : file.pageCount s.disk - number = left
  induction left generalizing s number with
  | zero =>
    have ends : scanNext file txn mode (s, some ⟨number, []⟩) = .ok none (s, some ⟨number, []⟩) := by
      show turnPages file txn mode (file.pageCount s.disk - number) number _ = _
      rw [pages]
      rfl
    rw [ends]
    exact .ends (.nil _) (Nat.le_of_sub_eq_zero pages)
  | succ left ih =>
    have inside : number < file.pageCount s.disk := by omega
    rw [scanNext_turns s file txn mode pages]
    cases fetched : fetch txn ⟨file.table, number⟩ mode s with
    | error stop after => exact .refused (.nil _) inside fetched
    | ok frame after =>
      have rest : file.pageCount after.disk - (number + 1) = left := by
        rw [((fetch_leads s txn _ mode).of_ok fetched).1.disk]
        omega
      cases found : frame.page.rows file.schema with
      | error e =>
        simp only [found]
        exact .unread (.nil _) inside fetched found
      | ok rows =>
        cases rows with
        | cons row rows =>
          simp only [found]
          exact .gives (.nil _) inside fetched found
        | nil =>
          simp only [found]
          have meets := ih after (number + 1) rest
          have turns : scanNext file txn mode (after, some ⟨number + 1, []⟩) =
              turnPages file txn mode (file.pageCount after.disk - (number + 1)) (number + 1)
                (after, some ⟨number + 1, []⟩) := rfl
          rw [turns, rest] at meets
          exact meets.cons inside fetched found

end Plan

end PageStore
