import PageStore.Proofs.Journal.Forced
import PageStore.Proofs.Journal.Stream

/-!
# The entries that a journal holds

A journal holds entries in memory, or as frames in its file and then in its buffer
(`Journal.Holds`).  An entry that is written comes after those that are held, unless the call fails
(`write_holds`), and to force a journal or to write other files leaves what it holds (`force_holds`,
`Holds.congr`).  What a journal holds is what is read from it, as long as the numbers of the entries
fit their words (`Holds.read`).

Whether a force fails is a matter of the journal alone, and a journal in memory counts the forces
that were tried; so it can be told afterwards that none has failed (`ForcesHold`).
-/

namespace PageStore.Journal

variable {journal : Journal} {disk after : Disk} {entries : List Entry}

/-- The journal holds the given entries, in order, and in a file each in a frame that is large
enough for it. -/
inductive Holds (entries : List Entry) : Journal → Disk → Prop
  | memory {log : MemoryLog} {disk : Disk} (same : log.entries = entries) :
      Holds entries (.memory log) disk
  | file {log : FileLog} {disk : Disk} (stream : log.stream disk = encodeEntries entries)
      (lengths : ∀ entry ∈ entries, entry.encode.length ≤ FileLog.maxEntry) :
      Holds entries (.file log) disk

/-- What a journal holds is a matter of its own file. -/
theorem Holds.congr (holds : journal.Holds entries disk)
    (same : ∀ path, journal.path? = some path → after.read path = disk.read path) :
    journal.Holds entries after := by
  cases holds with
  | memory held => exact .memory held
  | @file log _ stream lengths =>
    refine .file ?_ lengths
    rw [FileLog.stream, same log.path rfl]
    exact stream

/-- An entry that is written comes last, and a call that fails writes none. -/
theorem write_holds (holds : journal.Holds entries disk) (entry : Entry) :
    (journal.write disk entry).2.1.Holds
      (match (journal.write disk entry).1 with
      | .ok _ => entries ++ [entry]
      | .error _ => entries)
      (journal.write disk entry).2.2 := by
  cases holds with
  | @memory log _ held =>
    unfold Journal.write MemoryLog.write
    dsimp only
    by_cases fails : log.writeFails log.writesTried = true
    · rw [if_pos fails]
      exact .memory held
    · rw [if_neg fails]
      exact .memory (congrArg (· ++ [entry]) held)
  | @file log _ stream lengths =>
    cases written : log.write disk entry with
    | error e =>
      simp only [Journal.write, written]
      exact .file stream lengths
    | ok taken =>
      obtain ⟨small, -, added⟩ := FileLog.write_ok written
      simp only [Journal.write, written]
      refine .file ?_ fun other mem => ?_
      · rw [added, stream, encodeEntries_append]
        simp [encodeEntries]
      · rcases List.mem_append.1 mem with earlier | now
        · exact lengths other earlier
        · exact List.mem_singleton.1 now ▸ small

/-- Forcing a journal leaves what it holds. -/
theorem force_holds (holds : journal.Holds entries disk) :
    (journal.force disk).2.1.Holds entries (journal.force disk).2.2 := by
  cases holds with
  | memory held =>
    unfold Journal.force MemoryLog.force
    dsimp only
    split <;> exact .memory held
  | @file log _ stream lengths =>
    refine .file ?_ lengths
    show (log.flush disk).2.read log.path ++ [] = encodeEntries entries
    rw [List.append_nil, FileLog.read_flush]
    exact stream

/-- What a journal holds is read from it. -/
theorem Holds.read (holds : journal.Holds entries disk) (worded : ∀ entry ∈ entries, entry.Worded) :
    (journal.read disk).1 = .ok entries := by
  cases holds with
  | memory held => exact congrArg Except.ok held
  | @file log _ stream lengths =>
    have fits : ∀ entry ∈ entries, entry.Fits := fun entry mem =>
      (worded entry mem).fits (lengths entry mem)
    show (log.read disk).1 = _
    rw [FileLog.read_fst, stream, entriesOf?_encodeEntries fits]
    rfl

/-! ## Forces -/

/-- No force of the journal has failed so far. -/
inductive ForcesHold : Journal → Prop
  | memory {log : MemoryLog} (work : ∀ n < log.forcesTried, log.forceFails n = false) :
      ForcesHold (.memory log)
  | file {log : FileLog} : ForcesHold (.file log)

theorem forcesHold_memory_iff {log : MemoryLog} :
    ForcesHold (.memory log) ↔ ∀ n < log.forcesTried, log.forceFails n = false :=
  ⟨fun | .memory work => work, .memory⟩

instance (journal : Journal) : Decidable journal.ForcesHold :=
  match journal with
  | .memory _ => decidable_of_iff' _ forcesHold_memory_iff
  | .file _ => .isTrue .file

theorem forcesHold_of_write {entry : Entry} (hold : (journal.write disk entry).2.1.ForcesHold) :
    journal.ForcesHold := by
  cases journal with
  | memory log =>
    unfold Journal.write MemoryLog.write at hold
    dsimp only at hold
    refine .memory fun n before => ?_
    split at hold <;> exact forcesHold_memory_iff.1 hold n before
  | file log => exact .file

theorem forcesHold_of_force (hold : (journal.force disk).2.1.ForcesHold) : journal.ForcesHold := by
  cases journal with
  | memory log =>
    unfold Journal.force MemoryLog.force at hold
    dsimp only at hold
    refine .memory fun n before => ?_
    split at hold <;> exact forcesHold_memory_iff.1 hold n (Nat.lt_succ_of_lt before)
  | file log => exact .file

/-- A force that fails is found out. -/
theorem not_forcesHold_of_error {e : Error} (fails : (journal.force disk).1 = .error e) :
    ¬ (journal.force disk).2.1.ForcesHold := by
  cases journal with
  | memory log =>
    unfold Journal.force MemoryLog.force at fails ⊢
    dsimp only at fails ⊢
    split at fails
    · next failed =>
      rw [if_pos failed, forcesHold_memory_iff]
      intro hold
      have works := hold log.forcesTried (Nat.lt_succ_self _)
      rw [failed] at works
      cases works
    · cases fails
  | file log => cases fails

end PageStore.Journal
